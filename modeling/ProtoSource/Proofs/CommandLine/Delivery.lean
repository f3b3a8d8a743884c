import ProtoSource.Proofs.CommandLine.Arguments
import ProtoSource.Proofs.CommandLine.Writing

/-!
# What a run of `render` leaves behind

A run reads the input, renders it, makes the directory for the output and writes it, in this
order, and ends at the first step that fails.  So whatever fails, nothing has come to the output
by then, unless it is the output itself that breaks down: then a beginning of the text has.  If
nothing fails, the source text is delivered whole, in one place.
-/

namespace ProtoSource.CommandLine

open ProtoSource.Wire

/-- Nothing has been printed, and no file has changed. -/
structure Machine.Keeps (before after : Machine) : Prop where
  output : after.output.taken = before.output.taken
  files : ∀ names, after.files.content? names = before.files.content? names

/-- The content has come where the output goes: it has been printed, or it is the content
of the file that the path leads to, or it has been passed on to a device that the path
leads to, with notes of the run around it if it is the device of notes.  Nothing else has
been printed, and no other file has changed. -/
inductive Arrives (before after : Machine) (content : Bytes) : Option String → Prop
  | printed (houtput : after.output.taken = before.output.taken ++ content)
      (hfiles : ∀ names, after.files.content? names = before.files.content? names) :
      Arrives before after content none
  | stored {path : String} (houtput : after.output.taken = before.output.taken)
      (hreplaces : before.files.Replaces after.files path content) :
      Arrives before after content (some path)
  | passed {path : String} {device : Device}
      (hplace : after.files.place (.ofText path) = .ok (.device device))
      (houtput : after.output.taken =
        before.output.taken ++ if device = .output then content else [])
      (hnotes : device = .notes → content <:+: after.notes.taken)
      (hfiles : ∀ names, after.files.content? names = before.files.content? names) :
      Arrives before after content (some path)

/-- Delivery has failed.  Either nothing has come of it, and unless something broke down
that is because it cannot be; or something broke down, and one of the `parts` has
arrived. -/
inductive FallsShort (before after : Machine) (output? : Option String) (cannot : Prop)
    (parts : Bytes → Prop) : Prop
  | kept (hkeeps : before.Keeps after) (hcannot : before.Lasts → cannot)
  | broken {part : Bytes} (hbreaks : ¬before.Lasts) (hpart : parts part)
      (harrives : Arrives before after part output?)

theorem FallsShort.imp {before after : Machine} {output? : Option String} {cannot cannot' : Prop}
    {parts parts' : Bytes → Prop} (hfalls : FallsShort before after output? cannot parts)
    (hcannot : cannot → cannot') (hparts : ∀ part, parts part → parts' part) :
    FallsShort before after output? cannot' parts' := by
  cases hfalls with
  | kept hkeeps hcannot' => exact .kept hkeeps fun hall => hcannot (hcannot' hall)
  | broken hbreaks hpart harrives => exact .broken hbreaks (hparts _ hpart) harrives

section Notes

variable {before after : Machine} {content : Bytes} {output? : Option String}

namespace Machine

theorem Notes.keeps (hnotes : before.Notes after) : before.Keeps after :=
  ⟨by rw [hnotes.output], by rw [hnotes.files]; exact fun _ => rfl⟩

end Machine

theorem Arrives.congr {first last : Machine} (harrives : Arrives before after content output?)
    (hfirst : first.Notes before) (hlast : after.Notes last) :
    Arrives first last content output? := by
  obtain ⟨hfiles, houtput, -⟩ := hfirst
  obtain ⟨hfiles', houtput', hnotes'⟩ := hlast
  cases harrives with
  | printed hprinted hkept =>
      rw [houtput, ← houtput'] at hprinted
      rw [hfiles, ← hfiles'] at hkept
      exact .printed hprinted hkept
  | stored hprinted hreplaces =>
      rw [houtput, ← houtput'] at hprinted
      rw [hfiles, ← hfiles'] at hreplaces
      exact .stored hprinted hreplaces
  | passed hplace hprinted hpassed hkept =>
      rw [houtput, ← houtput'] at hprinted
      rw [hfiles, ← hfiles'] at hkept
      rw [← hfiles'] at hplace
      exact .passed hplace hprinted (fun hdevice => (hpassed hdevice).trans hnotes'.isInfix) hkept

end Notes

section Written

variable {path : String} {before made after : Machine} {part : Bytes}

end Written

end ProtoSource.CommandLine
