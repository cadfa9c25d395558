/-
This file embeds the bolts of `WordCountTopology.java` and the steps in which Storm runs them.
-/

import Mathlib.Data.Multiset.Bind
import Projs.Construction.Java.Lang
import Projs.Library.LabelledMachine

namespace Projs.Storm
open Java LabelledMachine

/-- A tuple between the bolts has the fields `word` and `num`. -/
structure WordTuple where
  word : JavaString
  num : Int
  deriving DecidableEq, Repr

/-- The splitter deletes full stops and commas, reads line feeds as spaces and cuts at spaces. -/
def MySplitBolt.words (line : JavaString) : List JavaString :=
  split 0x20 (replace 0x0A [0x20] (replace 0x2C [] (replace 0x2E [] line)))

/-- The splitter emits each word with the number one. -/
def MySplitBolt.execute (line : JavaString) : List WordTuple :=
  (words line).map fun word => ⟨word, 1⟩

/-- The counter's map sends each word seen so far to its count. -/
abbrev CountMap := JavaString → Option Int

/-- A word that the map knows grows by the tuple's number, and a new word starts at one. -/
def MyCountBolt.execute (map : CountMap) (tuple : WordTuple) : CountMap :=
  match map tuple.word with
  | some count => Function.update map tuple.word (some (wrapInt (count + tuple.num)))
  | none => Function.update map tuple.word (some 1)

/-- A step emits a line, or lets one task execute a line or a tuple that is in flight. -/
inductive Step (SplitTask CountTask : Type) where
  | emit (line : JavaString)
  | split (task : SplitTask) (line : JavaString)
  | count (task : CountTask) (tuple : WordTuple)

/-- The spout still has the unsent lines; emitted lines wait for a splitter, and tuples for their
counter. -/
structure Topology (CountTask : Type) where
  unsent : Multiset JavaString
  emitted : Multiset JavaString
  lines : Multiset JavaString
  tuples : Multiset WordTuple
  maps : CountTask → CountMap

/-- At the start, every line is unsent and every map is empty. -/
def start (CountTask : Type) (unsent : Multiset JavaString) : Topology CountTask where
  unsent := unsent
  emitted := 0
  lines := 0
  tuples := 0
  maps := fun _ _ => none

/-- This fault marks a step on something that is not there, or by a task that it is not sent to. -/
inductive Disabled where
  | disabled

variable {SplitTask CountTask : Type} [DecidableEq CountTask]

/-- Storm delivers a line to any splitter, and a tuple to the counter that its word is routed to. -/
def topology (route : JavaString → CountTask) :
    Machine (Topology CountTask) (Step SplitTask CountTask) Disabled where
  step state
    | .emit line =>
        if line ∈ state.unsent then
          .ok { state with
            unsent := state.unsent.erase line
            emitted := line ::ₘ state.emitted
            lines := line ::ₘ state.lines }
        else .error .disabled
    | .split _ line =>
        if line ∈ state.lines then
          .ok { state with
            lines := state.lines.erase line
            tuples := ↑(MySplitBolt.execute line) + state.tuples }
        else .error .disabled
    | .count task tuple =>
        if tuple ∈ state.tuples ∧ route tuple.word = task then
          .ok { state with
            tuples := state.tuples.erase tuple
            maps := Function.update state.maps task (MyCountBolt.execute (state.maps task) tuple) }
        else .error .disabled

end Projs.Storm
