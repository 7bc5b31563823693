import ModWizard.DataFile
import ModWizard.Dialog.Play
import ModWizard.Disk
import ModWizard.Host
import ModWizard.Installer.Session
import ModWizard.Organizer
import ModWizard.Package
import ModWizard.Path
import ModWizard.Requirement
import ModWizard.Scalar
import ModWizard.Table
import ModWizard.Text.Blank
import ModWizard.Text.Digit
import ModWizard.Text.Lines
import ModWizard.Text.Lowercase
import ModWizard.Text.Number
import ModWizard.Text.Split
import ModWizard.Text.WordChar
import ModWizard.Tree.Edit
import ModWizard.Tweak.File
import ModWizard.Version
import ModWizard.Proofs.Host
import ModWizard.Proofs.Dialog.Page
import ModWizard.Proofs.Dialog.Run
import ModWizard.Proofs.Dialog.Step
import ModWizard.Proofs.Dialog.Navigation
import ModWizard.Proofs.Dialog.Coherence
import ModWizard.Proofs.Dialog.Acceptance
import ModWizard.Proofs.Dialog.Undo
import ModWizard.Proofs.Dialog.Failure
import ModWizard.Proofs.Dialog.Buttons
import ModWizard.Proofs.Dialog.Return
import ModWizard.Proofs.Dialog.Caption
import ModWizard.Proofs.Installer.Key
import ModWizard.Proofs.Installer.Recall
import ModWizard.Proofs.Installer.Session
import ModWizard.Proofs.Dialog.Repeat
import ModWizard.Proofs.Installer.Reinstallation
import ModWizard.Proofs.Disk
import ModWizard.Proofs.Text
import ModWizard.Proofs.Tweak.Index
import ModWizard.Proofs.Tweak.Reading
import ModWizard.Proofs.Tweak.Merge
import ModWizard.Proofs.Tweak.Effect
import ModWizard.Proofs.Tweak.Appended
import ModWizard.Proofs.Tweak.Treatment
import ModWizard.Proofs.Tweak.Recasing
import ModWizard.Proofs.Tweak.Checked
import ModWizard.Proofs.Tweak.Disabling
import ModWizard.Proofs.Tweak.Rewriting
import ModWizard.Proofs.Tweak.Generated
import ModWizard.Proofs.Tweak.Layout
import ModWizard.Proofs.Tweak.Succession
import ModWizard.Proofs.Tree.Place
import ModWizard.Proofs.Tree.Path
import ModWizard.Proofs.Tree.Tidy
import ModWizard.Proofs.Installer.TweakFiles
import ModWizard.Proofs.Installer.TweakOrder
import ModWizard.Proofs.Installer.Completion
import ModWizard.Proofs.Table
import ModWizard.Proofs.Dialog.Ending
import ModWizard.Proofs.Installer.Handover
import ModWizard.Proofs.Tree.Change
import ModWizard.Proofs.Tree.Walk
import ModWizard.Proofs.Installer.Archive
import ModWizard.Proofs.Installer.Packages
import ModWizard.Proofs.Installer.Renames
import ModWizard.Proofs.Disk.Writing
import ModWizard.Proofs.Installer.Provenance
import ModWizard.Proofs.DataFile
import ModWizard.Proofs.Requirement
import ModWizard.Proofs.Script.Chain
import ModWizard.Proofs.Dialog.Requirement
import ModWizard.Proofs.Dialog.Skipping
import ModWizard.Proofs.Installer.Support
import ModWizard.Proofs.Lifting
import ModWizard.Proofs.Dialog.Picture
import ModWizard.Proofs.Installer.Assembly
import ModWizard.Proofs.Installer.Wrapping
import ModWizard.Proofs.Installer.Descent
import ModWizard.Proofs.Package
import ModWizard.Proofs.Dialog.Plugins
import ModWizard.Proofs.Dialog.Preset
import ModWizard.Proofs.Installer.Relevance
