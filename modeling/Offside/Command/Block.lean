import Offside.Command.Head
import Offside.Line

set_option autoImplicit false

namespace Offside

namespace Block

def depthBelow (line : Line) : List Line → Option Nat
  | next :: _ => if line.indent < next.indent then some next.indent else none
  | [] => none

-- The commands at one depth, with the number of lines they take up. They end before the first line that is less deep.
def commands (depth : Nat) (lines : List Line) : Except Error (List Command × Nat) :=
  match lines with
  | [] => .ok ([], 0)
  | line :: rest =>
      if line.indent < depth then .ok ([], 0)
      else if depth < line.indent then .error (.shape line.number .unexpectedIndent)
      else
        match Head.ofSymbols line.content with
        | .error cause => .error (.shape line.number cause)
        | .ok head =>
            if head.keyword.opensBlock then
              match depthBelow line rest with
              | none => .error (.shape line.number (.missingBlock head.keyword))
              | some below => do
                  let (body, taken) ← commands below rest
                  let (more, others) ← commands depth (rest.drop taken)
                  .ok (⟨line.number, head, body⟩ :: more, taken + others + 1)
            else do
              let (more, others) ← commands depth rest
              .ok (⟨line.number, head, []⟩ :: more, others + 1)
termination_by lines.length
decreasing_by all_goals grind

def ofLines (depth : Nat) (lines : List Line) : Except Error (List Command × Nat) :=
  match lines with
  | [] => .ok ([], 0)
  | first :: _ =>
      if first.indent = depth then commands depth lines
      else .error (.shape first.number (.indentation depth first.indent))

end Block

namespace Command

def ofLines (lines : List Line) : Except Error (List Command) := (Block.ofLines 0 lines).map Prod.fst

def ofSource (source : String) : Except Error (List Command) := (Line.ofSource source).bind ofLines

end Command

end Offside
