import Cellbook.Fault.Source
import Cellbook.Formula.Basic

/-!
# Blocks

How a list of entries falls into parts. Plain entries that stand together make a map; an `if` entry
opens a conditional, which takes the alternatives that follow directly, up to and including one
without a condition. An alternative that no conditional takes is a fault.
-/

namespace Cellbook

/-- An entry of a list, before it has found its place. -/
inductive ListEntry where
  | plain (entry : Entry)
  /-- The first arm of a conditional. -/
  | first (clause : Clause) (span : Span)
  /-- A further arm with a condition. -/
  | further (clause : Clause) (span : Span)
  /-- A last arm, without a condition. -/
  | last (clause : Clause) (span : Span)

/-- The part that still takes entries. -/
inductive OpenPart where
  | map (entries : List Entry) (span : Span)
  | conditional (clauses : List Clause) (span : Span) (complete : Bool)

namespace OpenPart

/-- Opens a part with an entry. -/
def start : ListEntry → Except SourceFault OpenPart
  | .plain entry => .ok (.map [entry] entry.origin.span)
  | .first clause span => .ok (.conditional [clause] span false)
  | .further _ span | .last _ span =>
    .error ⟨.invalidExpression .elseWithoutIf none, span.start⟩

/-- The part with one more entry, if it takes that. -/
def add? : OpenPart → ListEntry → Option OpenPart
  | .map entries span, .plain entry =>
    some (.map (entries ++ [entry]) (span.join entry.origin.span))
  | .conditional clauses span false, .further clause at' =>
    some (.conditional (clauses ++ [clause]) (span.join at') false)
  | .conditional clauses span false, .last clause at' =>
    some (.conditional (clauses ++ [clause]) (span.join at') true)
  | _, _ => none

def close (cell : Nat) : OpenPart → Formula
  | .map entries span => .map ⟨cell, span⟩ entries
  | .conditional clauses span _ => .conditional ⟨cell, span⟩ clauses

end OpenPart

/-- The parts of a block so far: those that are closed, in order, and the open one. -/
structure BlockParts where
  closed : List Formula
  current : Option OpenPart

namespace BlockParts

def empty : BlockParts := ⟨[], none⟩

/-- All parts, the open one closed. -/
def parts (cell : Nat) (b : BlockParts) : List Formula :=
  b.closed ++ (b.current.map (·.close cell)).toList

/-- Adds an entry to the open part, or opens a new one with it. -/
def add (cell : Nat) (b : BlockParts) (entry : ListEntry) : Except SourceFault BlockParts :=
  match b.current.bind (·.add? entry) with
  | some part => .ok { b with current := some part }
  | none => do return ⟨b.parts cell, some (← OpenPart.start entry)⟩

/-- The formula of a block in that span: a single part stands for itself. -/
def toFormula (cell : Nat) (span : Span) (b : BlockParts) : Formula :=
  match b.parts cell with
  | [] => .map ⟨cell, span⟩ []
  | [part] => part
  | parts => .block ⟨cell, span⟩ parts

end BlockParts

end Cellbook
