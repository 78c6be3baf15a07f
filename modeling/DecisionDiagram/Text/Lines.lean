import DecisionDiagram.Text.Blank
/-!
Lines of a text. A line ends at a line feed, at a carriage return, or at the pair of both.
-/
namespace DecisionDiagram.Text

def unifyLineEnds : Text → Text
  | '\r' :: '\n' :: t => '\n' :: unifyLineEnds t
  | '\r' :: t => '\n' :: unifyLineEnds t
  | c :: t => c :: unifyLineEnds t
  | [] => []

/-- The lines of a text whose line ends are line feeds; the last one is what follows the last of
them. -/
def lines (t : Text) : List Text := t.splitOnP (· == '\n')

def finishedLines (t : Text) : Text := dropEnd (· ≠ '\n') t

theorem unifyLineEnds_eq_self {t : Text} (h : '\r' ∉ t) : unifyLineEnds t = t := by
  induction t with
  | nil => rfl
  | cons c t ih =>
    have hc : c ≠ '\r' := fun e => h (e ▸ List.mem_cons_self)
    rw [unifyLineEnds, ih (fun m => h (List.mem_cons_of_mem _ m))]
    · intro _ e _; exact hc e
    · exact hc

end DecisionDiagram.Text
