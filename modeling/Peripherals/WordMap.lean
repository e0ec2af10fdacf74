import Std.Data.ExtTreeMap
import Peripherals.Word

/-! # Finite maps on words

Maps from words to words with finitely many entries, equal as soon as they have
the same entries. -/

namespace Peripherals

/-- A finite map from words to words. -/
structure WordMap where
  tree : Std.ExtTreeMap Word Word

namespace WordMap

/-- The map without entries. -/
def empty : WordMap := ⟨∅⟩

/-- The entry for a key. -/
def find? (map : WordMap) (key : Word) : Option Word :=
  map.tree[key]?

/-- The map with an entry added or replaced. -/
def insert (map : WordMap) (key value : Word) : WordMap :=
  ⟨map.tree.insert key value⟩

/-- The map without an entry for a key. -/
def erase (map : WordMap) (key : Word) : WordMap :=
  ⟨map.tree.erase key⟩

@[simp] theorem find?_empty (key : Word) : empty.find? key = none := by
  simp [find?, empty]

theorem find?_insert (map : WordMap) (key value other : Word) :
    (map.insert key value).find? other = if key = other then some value else map.find? other := by
  simp [find?, insert, Std.ExtTreeMap.getElem?_insert]

theorem find?_erase (map : WordMap) (key other : Word) :
    (map.erase key).find? other = if key = other then none else map.find? other := by
  simp [find?, erase, Std.ExtTreeMap.getElem?_erase]

@[ext] theorem ext {m n : WordMap} (h : ∀ key, m.find? key = n.find? key) : m = n := by
  obtain ⟨left⟩ := m
  obtain ⟨right⟩ := n
  have same : left = right := Std.ExtTreeMap.ext_getElem? h
  rw [same]

end WordMap

end Peripherals
