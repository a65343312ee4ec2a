import Mathlib.Data.List.Forall2
import Testbed.Proofs.Text.Search
import Testbed.Runner.Cargo
import Testbed.Runner.Command

/-!
# Command lines

The command line of a tool says which component is tested: no two components have the same one,
however the tool is configured.  A command puts the component in the place of every placeholder, and
behind its arguments if there is none.
-/

namespace Testbed

namespace Command

theorem placeholder_ne_nil : placeholder ≠ [] := by decide

theorem placeholder_unbordered : Text.Unbordered placeholder :=
  Text.unbordered_cons (by decide)

theorem hasPlaceholder_iff {argument : String} :
    hasPlaceholder argument = true ↔ placeholder <:+: argument.toList :=
  Text.occurs_iff

/-- An argument is filled by joining the component to the segments that the placeholders leave. -/
def Filled (component argument filled : String) : Prop :=
  ∃ segments, Text.IsSplit placeholder segments argument.toList ∧
    filled.toList = component.toList.intercalate segments

theorem filled_withComponent (component argument : String) :
    Filled component argument (withComponent component argument) :=
  ⟨_, Text.isSplit_segments placeholder_ne_nil argument.toList, String.toList_ofList⟩

/-- There is exactly one way to fill an argument. -/
theorem existsUnique_isSplit (argument : String) :
    ∃! segments, Text.IsSplit placeholder segments argument.toList :=
  ⟨_, Text.isSplit_segments placeholder_ne_nil argument.toList,
    fun _ h ↦ h.unique placeholder_unbordered (Text.isSplit_segments placeholder_ne_nil argument.toList)⟩

/-- The component can be read off an argument that had a placeholder. -/
theorem withComponent_injective {argument : String} (h : hasPlaceholder argument = true) :
    Function.Injective fun component ↦ withComponent component argument := by
  intro component component' heq
  apply String.toList_injective
  apply Text.substitute_injective placeholder_ne_nil (hasPlaceholder_iff.1 h)
  simpa [withComponent] using congrArg String.toList heq

variable (c : Command) (executable : String)

theorem commandLine_of_placeholder {a : String} (ha : a ∈ c.arguments) (h : hasPlaceholder a = true)
    (component : String) :
    c.commandLine executable component = executable :: c.arguments.map (withComponent component) := by
  rw [commandLine, if_pos (List.any_eq_true.2 ⟨a, ha, h⟩)]

theorem commandLine_of_no_placeholder (h : ∀ a ∈ c.arguments, hasPlaceholder a = false)
    (component : String) :
    c.commandLine executable component = executable :: (c.arguments ++ [component]) := by
  rw [commandLine, if_neg (by simpa using h)]

/-- Two components are never tested by the same command line. -/
theorem commandLine_injective : Function.Injective (c.commandLine executable) := by
  intro component component' heq
  by_cases h : ∃ a ∈ c.arguments, hasPlaceholder a = true
  · obtain ⟨a, ha, h⟩ := h
    rw [commandLine_of_placeholder c executable ha h, commandLine_of_placeholder c executable ha h,
      List.cons.injEq, List.map_inj_left] at heq
    exact withComponent_injective h (heq.2 a ha)
  · have h : ∀ a ∈ c.arguments, hasPlaceholder a = false := by simpa using h
    rw [commandLine_of_no_placeholder c executable h, commandLine_of_no_placeholder c executable h] at heq
    simpa using heq

end Command

theorem Cargo.commandLine_injective (c : Cargo) (executable : String) :
    Function.Injective (c.commandLine executable) := by
  intro component component' heq
  simpa [commandLine] using heq

/-- A command line begins with the program as it was found.  A command with a placeholder has its
arguments filled with the component, in one way only, and nothing behind them; one without has the
component behind its arguments.  In each case, and with cargo as well, the line tells the component
from any other. -/
theorem commandLines_identify :
    (∀ (command : Command) (executable component : String), ∃ arguments,
      command.commandLine executable component = executable :: arguments ∧
      ((∃ a ∈ command.arguments, Command.placeholder <:+: a.toList) →
        List.Forall₂ (Command.Filled component) command.arguments arguments) ∧
      ((¬∃ a ∈ command.arguments, Command.placeholder <:+: a.toList) →
        arguments = command.arguments ++ [component])) ∧
    (∀ argument : String, ∃! segments, Text.IsSplit Command.placeholder segments argument.toList) ∧
    (∀ (command : Command) (executable : String),
      Function.Injective (command.commandLine executable)) ∧
    ∀ (cargo : Cargo) (executable : String), Function.Injective (cargo.commandLine executable) := by
  refine ⟨?lines, Command.existsUnique_isSplit, Command.commandLine_injective, Cargo.commandLine_injective⟩
  intro command executable component
  by_cases h : ∃ a ∈ command.arguments, Command.placeholder <:+: a.toList
  · obtain ⟨a, ha, hplaceholder⟩ := h
    rw [command.commandLine_of_placeholder executable ha (Command.hasPlaceholder_iff.2 hplaceholder)]
    refine ⟨_, rfl, fun _ ↦ ?_, fun hnone ↦ absurd ⟨a, ha, hplaceholder⟩ hnone⟩
    rw [List.forall₂_map_right_iff, List.forall₂_same]
    exact fun argument _ ↦ Command.filled_withComponent component argument
  · rw [command.commandLine_of_no_placeholder executable
      (by simpa [Bool.eq_false_iff, Command.hasPlaceholder_iff] using h)]
    exact ⟨_, rfl, fun hsome ↦ absurd hsome h, fun _ ↦ rfl⟩

/-- A component that holds a placeholder is not filled in turn. -/
example : (⟨"tool", ["-p", "\x7bcomponent\x7d"], none, []⟩ : Command).commandLine "/bin/tool"
    "a\x7bcomponent\x7d" = ["/bin/tool", "-p", "a\x7bcomponent\x7d"] := by
  decide +kernel

end Testbed
