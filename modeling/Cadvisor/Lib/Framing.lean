import Mathlib.Data.List.Induction

/-!
# Frames with a separator behind each

A byte stream is cut into chunks anywhere.  However it was cut, what a reader holds is
some whole frames and the front of one more, and the rest is still to come.
-/

set_option autoImplicit false

namespace Framing

variable {α : Type} {sep : α}

def terminated (sep : α) (frames : List (List α)) : List α :=
  frames.flatMap fun frame => frame ++ [sep]

@[simp] theorem terminated_nil : terminated sep [] = [] := rfl

@[simp] theorem terminated_cons (frame : List α) (frames : List (List α)) :
    terminated sep (frame :: frames) = frame ++ sep :: terminated sep frames := by
  simp [terminated]

@[simp] theorem terminated_append (front back : List (List α)) :
    terminated sep (front ++ back) = terminated sep front ++ terminated sep back := by
  simp [terminated]

theorem exists_cut {frames : List (List α)} {tail held rest : List α}
    (tailPlain : sep ∉ tail) (plain : ∀ frame ∈ frames, sep ∉ frame)
    (stream : held ++ rest = terminated sep frames ++ tail) :
    ∃ before after part, frames = before ++ after ∧ held = terminated sep before ++ part ∧
      sep ∉ part ∧ part ++ rest = terminated sep after ++ tail := by
  induction frames generalizing held with
  | nil =>
      rw [terminated_nil, List.nil_append] at stream
      refine ⟨[], [], held, rfl, rfl, ?_, stream⟩
      intro inside
      exact tailPlain (stream ▸ List.mem_append_left _ inside)
  | cons frame frames ih =>
      obtain ⟨framePlain, framesPlain⟩ := List.forall_mem_cons.mp plain
      have whole : held ++ rest = (frame ++ [sep]) ++ (terminated sep frames ++ tail) := by
        rw [stream, terminated_cons]
        simp
      rcases List.append_eq_append_iff.mp whole with
        ⟨more, frameIs, restIs⟩ | ⟨more, heldIs, moreIs⟩
      · -- The first frame is not complete, unless it ends just here.
        cases more using List.reverseRecOn with
        | nil =>
            rw [List.append_nil] at frameIs
            rw [List.nil_append] at restIs
            refine ⟨[frame], frames, [], rfl, ?_, List.not_mem_nil, restIs⟩
            simp [← frameIs]
        | append_singleton init last =>
            rw [← List.append_assoc] at frameIs
            obtain ⟨frameParts, _⟩ := List.append_inj' frameIs rfl
            refine ⟨[], frame :: frames, held, rfl, rfl, ?_, ?_⟩
            · intro inside
              exact framePlain (frameParts ▸ List.mem_append_left _ inside)
            · rw [stream]
      · obtain ⟨before, after, part, framesAre, partIs, partPlain, restIs⟩ :=
          ih framesPlain moreIs.symm
        refine ⟨frame :: before, after, part, ?_, ?_, partPlain, restIs⟩
        · rw [framesAre, List.cons_append]
        · rw [heldIs, partIs, terminated_cons]
          simp

theorem count_terminated [DecidableEq α] {frames : List (List α)}
    (plain : ∀ frame ∈ frames, sep ∉ frame) :
    (terminated sep frames).count sep = frames.length := by
  induction frames with
  | nil => rfl
  | cons frame frames ih =>
      obtain ⟨framePlain, framesPlain⟩ := List.forall_mem_cons.mp plain
      rw [terminated_cons, List.count_append, List.count_cons_self, ih framesPlain,
        List.count_eq_zero_of_not_mem framePlain, List.length_cons, Nat.zero_add]

end Framing
