import Clawreform.Types.Message

namespace Clawreform.Runtime

open Clawreform.Lib.Text
open Clawreform.Lib.Json (Value)
open Clawreform.Types

variable (parseJson : Str → Option Value) (toolNames : List Str)

/-- The calls written `<function=NAME>JSON</function>`. -/
@[grind =] def attributeCalls : Nat → Str → List (Str × Value)
  | 0, _ => []
  | fuel + 1, s =>
    match find "<function=".toList s with
    | none => []
    | some start =>
      let afterPrefix := s.drop (start + "<function=".toList.length)
      match find ">".toList afterPrefix with
      | none => attributeCalls fuel afterPrefix
      | some nameEnd =>
        let toolName := afterPrefix.take nameEnd
        let body := afterPrefix.drop (nameEnd + 1)
        match find "</function>".toList body with
        | none => attributeCalls fuel body
        | some close =>
          let rest := body.drop (close + "</function>".toList.length)
          if toolName ∈ toolNames then
            match parseJson (trim (body.take close)) with
            | some input => (toolName, input) :: attributeCalls fuel rest
            | none => attributeCalls fuel rest
          else attributeCalls fuel rest

/-- Add to `calls` the calls written `<function>NAME{...}</function>` it does not
hold. -/
@[grind =] def elementCalls : Nat → List (Str × Value) → Str → List (Str × Value)
  | 0, calls, _ => calls
  | fuel + 1, calls, s =>
    match find "<function>".toList s with
    | none => calls
    | some start =>
      let afterTag := s.drop (start + "<function>".toList.length)
      match find "</function>".toList afterTag with
      | none => elementCalls fuel calls afterTag
      | some close =>
        let inner := afterTag.take close
        let rest := afterTag.drop (close + "</function>".toList.length)
        match find "\x7b".toList inner with
        | none => elementCalls fuel calls rest
        | some brace =>
          let toolName := trim (inner.take brace)
          if toolName = [] ∨ toolName ∉ toolNames then elementCalls fuel calls rest
          else
            match parseJson (trim (inner.drop brace)) with
            | none => elementCalls fuel calls rest
            | some input =>
              if (toolName, input) ∈ calls then elementCalls fuel calls rest
              else elementCalls fuel (calls ++ [(toolName, input)]) rest

/-- The calls found in a text, the `i`-th with the id made of the `i`-th of the
given identifiers. -/
def recoverTextToolCalls (newUuid : Nat → Str) (s : Str) (availableTools : List ToolDefinition) :
    List ToolCall :=
  let names := availableTools.map ToolDefinition.name
  let calls := elementCalls parseJson names s.length (attributeCalls parseJson names s.length s) s
  calls.mapIdx (fun i call => ⟨"recovered_".toList ++ newUuid i, call.1, call.2⟩)

end Clawreform.Runtime
