import Rfx.Mconf.Requests
import Rfx.Mconf.Setters

namespace Rfx
namespace Mconf

open Library.Calls

/-!
# Rejected values

A pair of the file whose value is rejected makes `mconf_parse` fail.  The loop over
the command line does not look at what `set` returns, so a value that is rejected
there goes unnoticed, unless something else is wrong.
-/

variable {M : Type}

/-- When the calls are made in turn, one of the values is rejected. -/
def Rejected (s : State M) (requests : List (Request M)) : Prop :=
  Exists fun final => Exists fun answered => Exists fun r =>
    performAll callSet s requests = some (final, answered) ∧ (r, false) ∈ answered

/-- The file cannot be used, or one of its values is rejected. -/
def ConfRefused (cf : Mconf M) (conf : Conf) (s : State M) : Prop :=
  cf.ConfBroken conf ∨ Rejected s (cf.confRequests (cf.confLines conf))

/-- Behind the values of the file, one of those of the command line is rejected. -/
def LineRejected (cf : Mconf M) (conf : Conf) (reports : List Reported) (s : State M) : Prop :=
  Exists fun middle => Exists fun front =>
    performAll callSet s (cf.confRequests (cf.confLines conf)) = some (middle, front) ∧
      Rejected middle (cf.lineRequests reports)

/-- If a call of `set` that was made since rejected its value, the result is -1. -/
def RejectionReported (s final : State M) (code : Int) : Prop :=
  forall since r, final.calls = s.calls ++ since -> (r, false) ∈ since -> code = -1

theorem rejected_iff {s final : State M} {requests : List (Request M)}
    {answered : List (Request M × Bool)}
    (performed : performAll callSet s requests = some (final, answered)) :
    Rejected s requests <-> Exists fun r => (r, false) ∈ answered := by
  constructor
  · rintro ⟨other, others, r, again, member⟩
    rw [performed] at again
    cases again
    exact ⟨r, member⟩
  · rintro ⟨r, member⟩
    exact ⟨final, answered, r, performed, member⟩

/-- Rejected values are reported exactly when none of the command line is rejected, or
there is an invalid option, or the file is refused. -/
theorem rejection_reported_iff {cf : Mconf M} {conf : Conf} {reports : List Reported}
    {s final : State M} {code : Int}
    (parsed : mconfParse cf conf reports s = some (.returned final code)) :
    RejectionReported s final code <->
      ¬ cf.LineRejected conf reports s ∨ reports.any cf.isInvalid = true ∨
        cf.ConfRefused conf s := by
  rcases mconfParse_eq parsed with ⟨middle, front, performed, outcome⟩
  have confRejected := rejected_iff performed
  rcases outcome with ⟨refused, _, failed⟩ | ⟨⟨usable, accepted⟩, back, later, returned⟩
  · have confRefused : cf.ConfRefused conf s := refused.imp_right confRejected.mpr
    constructor
    · exact fun _ => Or.inr (Or.inr confRefused)
    · exact fun _ _ _ _ _ => failed
  · have lineRejected : cf.LineRejected conf reports s <-> Exists fun r => (r, false) ∈ back := by
      constructor
      · rintro ⟨start, first, again, rejected⟩
        rw [performed] at again
        cases again
        exact (rejected_iff later).mp rejected
      · exact fun rejected => ⟨middle, front, performed, (rejected_iff later).mpr rejected⟩
    have notRefused : ¬ cf.ConfRefused conf s := by
      rintro (broken | rejected)
      · exact usable broken
      · rcases confRejected.mp rejected with ⟨r, member⟩
        exact Bool.false_ne_true (accepted _ member)
    have made : final.calls = s.calls ++ (front ++ back) := by
      rw [calls_eq later, calls_eq performed, List.append_assoc]
    by_cases invalid : reports.any cf.isInvalid = true
    · rw [if_pos invalid] at returned
      constructor
      · exact fun _ => Or.inr (Or.inl invalid)
      · exact fun _ _ _ _ _ => returned
    · rw [if_neg invalid] at returned
      rw [lineRejected]
      constructor
      · intro reported
        refine Or.inl fun rejected => ?_
        rcases rejected with ⟨r, member⟩
        have minusOne := reported _ r made (List.mem_append_right _ member)
        rw [returned] at minusOne
        cases minusOne
      · rintro (noneRejected | invalidHere | refused) since r sinceMade member
        · rw [made] at sinceMade
          rw [← List.append_cancel_left sinceMade] at member
          rcases List.mem_append.mp member with inFile | onLine
          · exact absurd (accepted _ inFile) Bool.false_ne_true
          · exact absurd ⟨r, onLine⟩ noneRejected
        · exact absurd invalidHere invalid
        · exact absurd refused notRefused

/-- A size in the file is rejected, and this is reported. -/
theorem rejection_reported_in_file :
    Exists fun final =>
      mconfParse sizeConf (Conf.ofFiles fun _ => some (text "[main]\nsize = bogus\n")) [] freshState =
        some (.returned final (-1)) ∧
      (RejectionReported freshState final (-1) <->
        ¬ sizeConf.LineRejected (Conf.ofFiles fun _ => some (text "[main]\nsize = bogus\n")) []
            freshState ∨
          ([] : List Reported).any sizeConf.isInvalid = true ∨
          sizeConf.ConfRefused (Conf.ofFiles fun _ => some (text "[main]\nsize = bogus\n"))
            freshState) :=
  ⟨_, rfl, rejection_reported_iff rfl⟩

/-- `-s bogus` is rejected, and `mconf_parse` returns 0. -/
theorem rejection_on_line_unnoticed :
    Exists fun final =>
      mconfParse sizeConf (Conf.ofFiles fun _ => some []) [.short 0x73 (some (text "bogus"))] freshState =
        some (.returned final 0) ∧
      ¬ RejectionReported freshState final 0 := by
  refine ⟨_, rfl, ?_⟩
  intro reported
  have minusOne := reported _ _ rfl List.mem_cons_self
  cases minusOne

end Mconf

end Rfx
