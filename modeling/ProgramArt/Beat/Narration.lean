import ProgramArt.Beat.Eval
import ProgramArt.Text.Aligned

/-!
# Narrated evaluations of formulas

A narrated evaluation shows the stack after every command.
-/

namespace ProgramArt.Beat

/-- A value as messages show it. -/
def Value.shown (v : Value) : String := v.toDatum.shown

/-- The messages that come before the trace. -/
def headerLines [Host] (program : Program) (raw : RawSample) : List String :=
  [ s!"🐛 BYTEBEAT TRACE: {program.text}",
    s!"t={raw.frame.text} mx={raw.mouseX.text} my={raw.mouseY.text} sx={raw.screenX.text} " ++
      s!"sy={raw.screenY.text} kx={raw.keyX.text} ky={raw.keyY.text}",
    String.ofList (List.replicate 60 '-') ]

/-- One message for each command of a trace. -/
def traceLines [Host] (steps : List (Cmd × Stack)) : List String :=
  steps.zipIdx.map fun ((cmd, stack), i) =>
    Text.padLeft 3 (toString i) ++ "  " ++ Text.ofCodes (Text.padCodes 12 cmd.codes) ++ "  " ++
      Text.bracketed (stack.reverse.map Value.shown)

/-- The messages of an evaluation and the stack that it leaves. -/
def narrate [Host] (program : Program) (raw : RawSample) : Except EvalError (List String × Stack) := do
  let steps ← trace program raw
  return (headerLines program raw ++ traceLines steps, (steps.getLast?.map Prod.snd).getD [])

end ProgramArt.Beat
