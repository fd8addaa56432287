import Mathlib.Data.List.Infix

/-!
# The shortest prefix of a stream that stops a reader

A reader takes items off a stream one at a time and stops as soon as what it has
taken satisfies a condition. What it leaves unread is determined by the
condition alone: it has taken the shortest prefix of the stream that satisfies
it.
-/

namespace ShortestPrefix

variable {α : Type*}

/-- No proper prefix of a list satisfies the condition. -/
def Continues (Stops : List α → Prop) (taken : List α) : Prop :=
  ∀ shorter, shorter <+: taken → shorter ≠ taken → ¬ Stops shorter

/-- A reader that stops on `taken` and on no shorter prefix leaves `rest`. -/
structure Reads (Stops : List α → Prop) (stream taken rest : List α) : Prop where
  split : stream = taken ++ rest
  stops : Stops taken
  shortest : Continues Stops taken

variable {Stops : List α → Prop} {item : α} {stream taken rest : List α}

theorem not_reads_of_nil (continues : ¬ Stops []) : ¬ Reads Stops [] taken rest := by
  intro reads
  have nothing := List.append_eq_nil_iff.mp reads.split.symm
  exact continues (nothing.1 ▸ reads.stops)

theorem reads_iff_of_stops (stops : Stops []) :
    Reads Stops stream taken rest ↔ taken = [] ∧ rest = stream := by
  constructor
  · intro reads
    have nothing : taken = [] := by
      by_contra apart
      exact reads.shortest [] List.nil_prefix (Ne.symm apart) stops
    refine ⟨nothing, ?_⟩
    rw [reads.split, nothing, List.nil_append]
  · rintro ⟨rfl, rfl⟩
    refine ⟨rfl, stops, ?_⟩
    intro shorter isPrefix apart
    exact absurd (List.prefix_nil.mp isPrefix) apart

theorem reads_cons_iff (continues : ¬ Stops []) :
    Reads Stops (item :: stream) taken rest ↔
      ∃ later, taken = item :: later ∧
        Reads (fun next => Stops (item :: next)) stream later rest := by
  constructor
  · intro reads
    cases taken with
    | nil => exact absurd reads.stops continues
    | cons first later =>
      have split := reads.split
      rw [List.cons_append, List.cons.injEq] at split
      rcases split with ⟨rfl, split⟩
      refine ⟨later, rfl, split, reads.stops, ?_⟩
      intro shorter isPrefix apart
      apply reads.shortest (item :: shorter)
      · exact List.cons_prefix_cons.mpr ⟨rfl, isPrefix⟩
      · simpa using apart
  · rintro ⟨later, rfl, reads⟩
    refine ⟨by rw [reads.split, List.cons_append], reads.stops, ?_⟩
    intro shorter isPrefix apart
    cases shorter with
    | nil => exact continues
    | cons first shorter =>
      rcases List.cons_prefix_cons.mp isPrefix with ⟨rfl, laterPrefix⟩
      apply reads.shortest shorter laterPrefix
      simpa using apart

theorem reads_congr {Other : List α → Prop}
    (agree : ∀ taken, Continues Other taken → (Stops taken ↔ Other taken)) :
    Reads Stops stream taken rest ↔ Reads Other stream taken rest := by
  constructor
  · intro reads
    have continues : ∀ start, start <+: taken → Continues Other start := by
      intro start
      -- a first prefix that satisfied the other condition would satisfy this one
      induction length : start.length using Nat.strong_induction_on generalizing start with
      | _ _ ih =>
        subst length
        intro startPrefix shorter isPrefix apart
        have earlier := ih shorter.length (lt_of_le_of_ne isPrefix.length_le
          (fun same => apart (isPrefix.eq_of_length same))) shorter rfl
          (isPrefix.trans startPrefix)
        rw [← agree shorter earlier]
        apply reads.shortest shorter (isPrefix.trans startPrefix)
        rintro rfl
        exact apart (isPrefix.eq_of_length (le_antisymm isPrefix.length_le startPrefix.length_le))
    have upTo := continues taken List.prefix_rfl
    exact ⟨reads.split, (agree taken upTo).mp reads.stops, upTo⟩
  · intro reads
    refine ⟨reads.split, (agree taken reads.shortest).mpr reads.stops, ?_⟩
    intro shorter isPrefix apart stops
    apply reads.shortest shorter isPrefix apart
    refine (agree shorter ?_).mp stops
    intro start startPrefix startApart
    apply reads.shortest start (startPrefix.trans isPrefix)
    rintro rfl
    exact startApart (startPrefix.eq_of_length
      (le_antisymm startPrefix.length_le isPrefix.length_le))

end ShortestPrefix
