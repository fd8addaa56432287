import Mathlib.Data.List.Basic

/-!
# Traces of an allocator

A trace lists the pointers that an allocator has handed out and taken back, in this
order. A pointer is live if it was handed out and has not been taken back since, and a
trace is sound if only live pointers were taken back.
-/

namespace AllocTrace

inductive Event (Pointer : Type*)
  | alloc (pointer : Pointer)
  | free (pointer : Pointer)
  deriving DecidableEq

variable {Pointer : Type*} {trace : List (Event Pointer)} {pointer other : Pointer}

/-- The pointer was handed out and has not been taken back since. -/
def Live (trace : List (Event Pointer)) (pointer : Pointer) : Prop :=
  ∃ earlier later, trace = earlier ++ .alloc pointer :: later ∧ .free pointer ∉ later

def FreesLive (trace : List (Event Pointer)) : Prop :=
  ∀ earlier pointer later, trace = earlier ++ .free pointer :: later → Live earlier pointer

theorem Live.mem (live : Live trace pointer) : .alloc pointer ∈ trace := by
  rcases live with ⟨earlier, later, rfl, -⟩
  simp

theorem split_concat {event first : Event Pointer} {earlier later : List (Event Pointer)}
    (split : trace ++ [event] = earlier ++ first :: later) :
    trace = earlier ∧ event = first ∧ later = [] ∨
      ∃ before, trace = earlier ++ first :: before ∧ later = before ++ [event] := by
  rcases List.eq_nil_or_concat later with rfl | ⟨before, last, rfl⟩
  · rcases List.append_inj' split rfl with ⟨rfl, same⟩
    simp only [List.cons.injEq, and_true] at same
    exact Or.inl ⟨rfl, same, rfl⟩
  · rw [List.concat_eq_append, ← List.cons_append, ← List.append_assoc] at split
    rcases List.append_inj' split rfl with ⟨rfl, same⟩
    exact Or.inr ⟨before, rfl, by rw [List.concat_eq_append, same]⟩

theorem live_concat_alloc :
    Live (trace ++ [.alloc other]) pointer ↔ pointer = other ∨ Live trace pointer := by
  constructor
  · rintro ⟨earlier, later, split, kept⟩
    rcases split_concat split with ⟨-, same, -⟩ | ⟨before, rfl, rfl⟩
    · exact Or.inl (Event.alloc.inj same).symm
    · exact Or.inr ⟨earlier, before, rfl, fun freed => kept (by simp [freed])⟩
  · rintro (rfl | ⟨earlier, later, rfl, kept⟩)
    · exact ⟨trace, [], rfl, by simp⟩
    · exact ⟨earlier, later ++ [.alloc other], by simp, by simpa using kept⟩

theorem live_concat_free :
    Live (trace ++ [.free other]) pointer ↔ pointer ≠ other ∧ Live trace pointer := by
  constructor
  · rintro ⟨earlier, later, split, kept⟩
    rcases split_concat split with ⟨-, same, -⟩ | ⟨before, rfl, rfl⟩
    · cases same
    · refine ⟨?_, earlier, before, rfl, fun freed => kept (by simp [freed])⟩
      rintro rfl
      exact kept (by simp)
  · rintro ⟨different, earlier, later, rfl, kept⟩
    exact ⟨earlier, later ++ [.free other], by simp, by simp [kept, different]⟩

theorem live_append_allocs {pointers : List Pointer} :
    Live (trace ++ pointers.map .alloc) pointer ↔ pointer ∈ pointers ∨ Live trace pointer := by
  induction pointers generalizing trace with
  | nil => simp
  | cons first pointers ih =>
    rw [List.map_cons, List.append_cons, ih, live_concat_alloc, List.mem_cons]
    tauto

theorem freesLive_nil : FreesLive ([] : List (Event Pointer)) := by
  intro earlier pointer later split
  simp at split

theorem freesLive_concat_alloc : FreesLive (trace ++ [.alloc pointer]) ↔ FreesLive trace := by
  constructor
  · rintro sound earlier freed later rfl
    exact sound earlier freed (later ++ [.alloc pointer]) (by simp)
  · intro sound earlier freed later split
    rcases split_concat split with ⟨-, same, -⟩ | ⟨before, rfl, -⟩
    · cases same
    · exact sound earlier freed before rfl

theorem freesLive_append_allocs {pointers : List Pointer} :
    FreesLive (trace ++ pointers.map .alloc) ↔ FreesLive trace := by
  induction pointers generalizing trace with
  | nil => simp
  | cons first pointers ih =>
    rw [List.map_cons, List.append_cons, ih, freesLive_concat_alloc]

theorem freesLive_concat_free :
    FreesLive (trace ++ [.free pointer]) ↔ FreesLive trace ∧ Live trace pointer := by
  constructor
  · intro sound
    refine ⟨?_, sound trace pointer [] rfl⟩
    rintro earlier freed later rfl
    exact sound earlier freed (later ++ [.free pointer]) (by simp)
  · rintro ⟨sound, live⟩ earlier freed later split
    rcases split_concat split with ⟨rfl, same, -⟩ | ⟨before, rfl, -⟩
    · exact Event.free.inj same ▸ live
    · exact sound earlier freed before rfl

end AllocTrace
