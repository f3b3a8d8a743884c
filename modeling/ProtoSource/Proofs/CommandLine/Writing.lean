import ProtoSource.CommandLine.Run
import ProtoSource.Proofs.CommandLine.Files

/-!
# Operations of commands on a machine

A command is a chain of operations, each of which gives a result or ends the command.  What an
operation ensures is said for both outcomes at once, so that the chain is followed link by link
and never taken apart.  A write comes to one of three things: it is refused, or a file is
replaced by as much as the disk takes, or the content is passed on to a device.
-/

namespace ProtoSource.CommandLine

open ProtoSource.Wire

/-- Nothing breaks down that is written to. -/
structure Machine.Lasts (machine : Machine) : Prop where
  output : machine.output.breakdown? = none
  flush : machine.output.flushFault? = none
  notes : machine.notes.breakdown? = none
  disk : machine.files.disk? = none

/-- A result of an operation fulfils `done` with the machine after it, a failure `failed`. -/
structure Ensures {α : Type} (operation : ExceptT Failure (StateM Machine) α) (before : Machine)
    (done : α → Machine → Prop) (failed : Failure → Machine → Prop) : Prop where
  outcome : match operation.run.run before with
    | (.ok value, after) => done value after
    | (.error failure, after) => failed failure after

namespace Ensures

variable {α β : Type} {before : Machine} {done : β → Machine → Prop}
  {failed : Failure → Machine → Prop}

theorem pure {value : β} (hdone : done value before) :
    Ensures (Pure.pure value) before done failed :=
  ⟨hdone⟩

theorem throw {failure : Failure} (hfailed : failed failure before) :
    Ensures (MonadExcept.throw failure) before done failed :=
  ⟨hfailed⟩

theorem bind {first : ExceptT Failure (StateM Machine) α}
    {next : α → ExceptT Failure (StateM Machine) β} {between : α → Machine → Prop}
    (hfirst : Ensures first before between failed)
    (hnext : ∀ value machine, between value machine → Ensures (next value) machine done failed) :
    Ensures (first >>= next) before done failed := by
  obtain ⟨hfirst⟩ := hfirst
  constructor
  rw [ExceptT.run_bind, StateT.run_bind]
  rcases hrun : first.run.run before with ⟨failure | value, machine⟩
  · rw [hrun] at hfirst
    exact hfirst
  · rw [hrun] at hfirst
    exact (hnext value machine hfirst).outcome

theorem imp {operation : ExceptT Failure (StateM Machine) β} {done' : β → Machine → Prop}
    {failed' : Failure → Machine → Prop} (hensures : Ensures operation before done failed)
    (hdone : ∀ value after, done value after → done' value after)
    (hfailed : ∀ failure after, failed failure after → failed' failure after) :
    Ensures operation before done' failed' := by
  obtain ⟨houtcome⟩ := hensures
  constructor
  rcases hrun : operation.run.run before with ⟨failure | value, after⟩
  · rw [hrun] at houtcome
    exact hfailed failure after houtcome
  · rw [hrun] at houtcome
    exact hdone value after houtcome

theorem orFail {failure : FileFault → Failure} {operation : StateM Machine (Except FileFault β)}
    (hdone : ∀ value after, operation.run before = (.ok value, after) → done value after)
    (hfailed : ∀ fault after, operation.run before = (.error fault, after) →
      failed (failure fault) after) :
    Ensures (CommandLine.orFail failure operation) before done failed := by
  constructor
  rw [CommandLine.orFail, ExceptT.run_mk, StateT.run_bind]
  rcases hrun : operation.run before with ⟨fault | value, machine⟩
  · exact hfailed fault machine hrun
  · exact hdone value machine hrun

end Ensures

/-- Only the notes of a machine have changed, and only at their end. -/
structure Machine.Notes (before after : Machine) : Prop where
  files : after.files = before.files
  output : after.output = before.output
  notes : before.notes.taken <+: after.notes.taken

theorem Machine.Notes.refl (machine : Machine) : machine.Notes machine :=
  ⟨rfl, rfl, List.prefix_rfl⟩

/-- What a write to a path comes to: it is refused, or a file is replaced by what the disk
takes, or a device gets it. -/
inductive Writes (before : Machine) (path : String) (content : Bytes) :
    Except FileFault Unit → Machine → Prop
  | refused {fault : FileFault}
      (hrefused : ∀ place, before.files.destination path = .ok place → place = .directory) :
      Writes before path content (.error fault) before
  | stored {place : Place} {result : Except FileFault Unit} {part : Bytes} {files : FileTree}
      (hdestination : before.files.destination path = .ok place) (hplace : place ≠ .directory)
      (haccepted : accepted before.files.disk? content = (result, part))
      (hreplaces : before.files.Replaces files path part)
      (hdisk : files.disk? = before.files.disk?) :
      Writes before path content result { before with files := files }
  | passed {device : Device} {result : Except FileFault Unit} {after : Machine}
      (hdestination : before.files.destination path = .ok (.device device))
      (hpass : before.pass device content = (result, after)) :
      Writes before path content result after

end ProtoSource.CommandLine
