import Sexpand.Expansion

namespace Sexpand

namespace Action

/-- What the action puts into an output with room for it. -/
def written : Action → Utf8.Bytes
  | .write _ bytes => bytes
  | .report _ => []

def notice? : Action → Option Notice
  | .write _ _ => none
  | .report notice => some notice

end Action

theorem Effects.perform_of_room_eq_none (fx : Effects) (actions : List Action)
    (h : fx.output.room = none) :
    fx.perform actions =
      (⟨⟨(actions.flatMap Action.written).reverse ++ fx.output.reversed, none⟩,
        (actions.filterMap Action.notice?).reverse ++ fx.notices⟩, none) := by
  induction actions generalizing fx with
  | nil =>
      obtain ⟨⟨reversed, room⟩, notices⟩ := fx
      obtain rfl : room = none := h
      rfl
  | cons action actions ih =>
      obtain ⟨⟨reversed, room⟩, notices⟩ := fx
      obtain rfl : room = none := h
      cases action with
      | write origin bytes =>
          simp only [perform, Output.write]
          rw [ih _ rfl]
          simp [List.filterMap_cons, Action.written, Action.notice?]
      | report notice =>
          rw [perform, ih _ rfl]
          simp [Action.written, Action.notice?]

theorem Script.run_empty_none {α : Type} (s : Script α) :
    s.run (.empty none) =
      (⟨⟨(s.actions.flatMap Action.written).reverse, none⟩,
        (s.actions.filterMap Action.notice?).reverse⟩, s.outcome.mapError .missingArgument) := by
  rw [run, Effects.perform_of_room_eq_none _ _ rfl]
  simp [Effects.empty, Output.empty]

/-- What performing the script leaves behind where every write succeeds. -/
def Script.report (s : Script Nat) : Report :=
  ⟨s.actions.flatMap Action.written, s.actions.filterMap Action.notice?,
    s.outcome.mapError .missingArgument⟩

theorem expandBytes_none (m : Marker) (input : Utf8.Bytes) :
    expandBytes m input none = ((Scan.start input).toScript m).report := by
  rw [expandBytes, Script.run_empty_none]
  simp [Script.report, Output.bytes]

namespace Rendering

def notices (r : Rendering) : List Notice := r.actions.filterMap Action.notice?

theorem flatMap_written_actions (r : Rendering) :
    r.actions.flatMap Action.written = Utf8.encode r.text := by
  rw [actions, text, Utf8.encode, List.flatMap_map, List.flatMap_assoc]
  congr 1
  funext part
  cases part <;> rfl

theorem run_script (r : Rendering) :
    (r.script.run (.empty none)).1.output.bytes = Utf8.encode r.text ∧
      (r.script.run (.empty none)).2 =
        r.missing.elim (.ok ()) fun missing => .error (.missingArgument missing) := by
  rw [Script.run_empty_none]
  constructor
  · rw [Output.bytes, List.reverse_reverse]
    exact r.flatMap_written_actions
  · rw [script]
    cases r.missing <;> rfl

end Rendering

end Sexpand
