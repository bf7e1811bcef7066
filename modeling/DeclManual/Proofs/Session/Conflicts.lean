import DeclManual.Session.Basic

/-!
# Recorded conflicts

Recording conflicts adds their diagnostics, in order and at the current position, and
changes nothing else.
-/

namespace DeclManual

/-- The two conflicts of a parameter are worded differently. -/
theorem Conflict.message_parameterTypes_ne (name : String) :
    (parameterTypes name).message ≠ (parameterComments name).message := by
  intro same
  have texts : "parameter '" ++ name ++ "' has conflicting declarations" =
      "parameter '" ++ name ++ "' has multiple comments" := same
  rw [String.append_right_inj] at texts
  exact absurd texts (by decide)

namespace Session

/-- The diagnostic of a conflict at the current position. -/
def diagnosis (session : Session) (conflict : Conflict) : Diagnostic where
  file := session.source.currentFile
  line := session.source.line
  message := conflict.message

theorem report_eq (session : Session) (conflict : Conflict) :
    session.report conflict =
      { session with diagnostics := session.diagnostics ++ [session.diagnosis conflict] } :=
  rfl

theorem reportAll_eq (session : Session) (conflicts : List Conflict) :
    session.reportAll conflicts =
      { session with diagnostics := session.diagnostics ++ conflicts.map session.diagnosis } := by
  unfold reportAll
  induction conflicts generalizing session with
  | nil => simp
  | cons conflict rest hypothesis =>
      rw [List.foldl_cons, report_eq, hypothesis]
      simp [diagnosis]

end Session
end DeclManual
