import Mathlib.Data.List.Basic

/-! # What a crash can leave

A value that is kept on disk has a current version, and older ones that a crash of the
machine can bring back until the disk is synced: a file, the file that a name stands for,
or the files of a directory. -/

namespace Base

/-- A value on disk. -/
structure Versioned (α : Type) where
  current : α
  /-- The versions since the last sync. -/
  older : List α := []

namespace Versioned

variable {α : Type}

/-- A new version. -/
def write (f : Versioned α) (a : α) : Versioned α := ⟨a, f.current :: f.older⟩

/-- Only the current version is left. -/
def sync (f : Versioned α) : Versioned α := ⟨f.current, []⟩

/-- The versions that a crash may leave. -/
def versions (f : Versioned α) : List α := f.current :: f.older

/-- What a crash leaves: all of it when only the program ends, one of the versions when the machine
fails. -/
inductive Crash (f : Versioned α) : Versioned α → Prop
  | program : Crash f f
  | machine (a : α) (ha : a ∈ f.versions) : Crash f ⟨a, []⟩

/-- Every version that a crash may leave has a property. -/
def All (P : α → Prop) (f : Versioned α) : Prop := ∀ a ∈ f.versions, P a

variable {P Q : α → Prop} {f f' : Versioned α} {a : α}

theorem All.current (h : f.All P) : P f.current := h _ List.mem_cons_self

theorem All.mono (h : f.All P) (hPQ : ∀ a, P a → Q a) : f.All Q := fun a ha => hPQ a (h a ha)

theorem All.write (h : f.All P) (ha : P a) : (f.write a).All P := by
  intro b hb
  rcases List.mem_cons.mp hb with rfl | hb
  · exact ha
  · exact h b hb

theorem All.sync (h : f.All P) : f.sync.All P := by
  intro b hb
  rw [List.mem_singleton.mp hb]
  exact h.current

theorem All.crash (h : f.All P) (hc : f.Crash f') : f'.All P := by
  cases hc with
  | program => exact h
  | machine a ha =>
      intro b hb
      rw [List.mem_singleton.mp hb]
      exact h a ha

/-- After a sync only the new version is left. -/
theorem all_synced (ha : P a) : (f.write a).sync.All P := by
  intro b hb
  rw [List.mem_singleton.mp hb]
  exact ha

end Versioned

end Base
