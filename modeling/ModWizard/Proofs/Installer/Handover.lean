import ModWizard.Installer.Install
import ModWizard.Proofs.Dialog.Ending
import ModWizard.Proofs.Table

/-!
# What the dialog hands to the installation

The plan of an installation is taken from the page at the end, and so from the outcome that the page
was made for (`planOf_of_shows`).  Its tweaks are taken row by row, each under the name that the row
shows.  Slashes stand for backslashes there, so two files of the outcome may show one name.  Both
rows stay on the page, but of the two only the last is handed over (`tweaks_told_iff`).
-/

namespace ModWizard.Installer

open Dialog (Setup CompletePage Page Reachable Shows)
open Dialog.CompletePage (slashed)

variable {setup : Setup} {d : Dialog} {p : CompletePage} {k : String} {o : Outcome}
  {next : Option String}

/-- The tweaks of an outcome by the names that its files show. -/
def shownTweaks (o : Outcome) : Table String (List Tweak) :=
  Table.ofList (o.tweaks.entries.map fun f => (slashed f.1, f.2))

/-- The plan is that of the outcome that the page at the end shows. -/
theorem planOf_of_shows (hp : d.top? = some (.complete p))
    (h : Shows setup d (.complete p) (.done k o next)) :
    planOf d = .ok
      ⟨(setup.packages.map (·.name)).filter o.packages.contains, o.renames, shownTweaks o⟩ := by
  obtain ⟨_, _, _, row, hs, rfl⟩ := h
  cases hs
  have hc : d.completePage = .ok ((CompletePage.create setup.packages o).setRow row) := by
    simp [Dialog.completePage, Dialog.topComplete?, hp]
  simp only [planOf, hc, CompletePage.checkedPackages_setRow, CompletePage.checkedPackages_create,
    CompletePage.renames_setRow, CompletePage.renames_create, CompletePage.tweaks_setRow,
    CompletePage.tweaks_create, shownTweaks]

/-- The page at the end has a row for each file of the outcome. -/
theorem files_of_shows (h : Shows setup d (.complete p) (.done k o next)) :
    p.files = o.tweaks.entries.map fun f => ⟨slashed f.1, f.2⟩ := by
  obtain ⟨_, _, _, row, hs, rfl⟩ := h
  cases hs
  rw [CompletePage.files_setRow, CompletePage.create, CompletePage.files_setRow]

/-- The last file of an outcome that shows a name. -/
def lastShown? (o : Outcome) (name : String) : Option (String × List Tweak) :=
  o.tweaks.entries.reverse.find? fun f => slashed f.1 == name

theorem get?_shownTweaks (o : Outcome) (name : String) :
    (shownTweaks o).get? name = (lastShown? o name).map Prod.snd := by
  rw [shownTweaks, Table.get?_ofList, ← List.map_reverse, List.find?_map, Option.map_map]
  rfl

/-- Every name that is shown has a last file that shows it. -/
theorem exists_lastShown? {f : String × List Tweak} (hf : f ∈ o.tweaks.entries) :
    ∃ g, lastShown? o (slashed f.1) = some g := by
  refine Option.isSome_iff_exists.mp (List.find?_isSome.mpr ⟨f, ?_, ?_⟩)
  · exact List.mem_reverse.mpr hf
  · exact beq_self_eq_true _

/-- That all tweaks of a file are among those told for the name that it shows. -/
def Told (ts : Table String (List Tweak)) (f : String × List Tweak) : Prop :=
  ∃ xs, ts.get? (slashed f.1) = some xs ∧ f.2 ⊆ xs

instance (ts : Table String (List Tweak)) (f : String × List Tweak) : Decidable (Told ts f) :=
  decidable_of_iff (((ts.get? (slashed f.1)).any fun xs => f.2.all xs.contains) = true) <| by
    simp only [Told, Option.any_eq_true, List.all_eq_true, List.contains_iff_mem]
    exact Iff.rfl

theorem told_shownTweaks_iff {f : String × List Tweak} (hf : f ∈ o.tweaks.entries) :
    Told (shownTweaks o) f ↔ ∀ g ∈ lastShown? o (slashed f.1), f.2 ⊆ g.2 := by
  obtain ⟨g, hg⟩ := exists_lastShown? hf
  simp [Told, get?_shownTweaks, hg]

namespace Separators

/-- An edit that gives a setting a number. -/
def giving (setting : String) (n : Int) : Tweak := .edit ⟨"set", setting, .int n, none⟩

/-- The end of a script, with some tweak files. -/
def outcome (files : List (String × List Tweak)) : Outcome := ⟨[], [], [], ∅, .ofList files⟩

/-- A dialog for a script that ends at once. -/
def ending (files : List (String × List Tweak)) : Setup where
  organizer := ⟨.plain 9, "Game", "1.0", "1.0", none, some ∅, [], [], ∅, ∅⟩
  script := ⟨"e", .ofList [("e", ⟨"e", .done (outcome files) none⟩)]⟩
  packages := []
  images := ∅
  remembered := ∅

/-- The dialog as it is opened. -/
def opened (files : List (String × List Tweak)) : Dialog :=
  (Dialog.start (ending files) (.blank ⟨"Mod", ["Mod"]⟩)).1

/-- The page of that dialog with a row of the tweak files looked at. -/
def page (files : List (String × List Tweak)) (row : Nat) : CompletePage :=
  (CompletePage.create [] (outcome files)).setRow row

/-- Two names that differ in their separators only, with other tweaks. -/
def clashing : List (String × List Tweak) :=
  [("a\\b.ini", [giving "x" 1]), ("a/b.ini", [giving "y" 2])]

/-- The same names, and the last file has the tweaks of the first too. -/
def repeating : List (String × List Tweak) :=
  [("a\\b.ini", [giving "x" 1]), ("c\\d.ini", []), ("a/b.ini", [giving "x" 1, giving "y" 2])]

end Separators

/-- On the page at the end, which is always that of an outcome of the script, every file of the
outcome has a row, and the tweaks that the dialog tells are those that are installed.  All tweaks of
all files are among them exactly if the last file that shows a name has the tweaks of all files that
show it. -/
theorem tweaks_told_iff (hr : Reachable setup d) (hp : d.top? = some (.complete p)) :
    (∃ source k o next, Dialog.stopFrom? setup source = some (.done k o next) ∧
      Shows setup d (.complete p) (.done k o next)) ∧
    ∀ k o next, Shows setup d (.complete p) (.done k o next) →
      p.files = o.tweaks.entries.map (fun f => ⟨slashed f.1, f.2⟩) ∧
      ∃ plan, planOf d = .ok plan ∧ d.query .tweaks = .ok (.tweaks plan.tweaks) ∧
        (∀ name, plan.tweaks.get? name = (lastShown? o name).map Prod.snd) ∧
        ((∀ f ∈ o.tweaks.entries, Told plan.tweaks f) ↔
          ∀ f ∈ o.tweaks.entries, ∀ g ∈ lastShown? o (slashed f.1), f.2 ⊆ g.2) := by
  refine ⟨hr.shows_outcome hp, fun k o next hs => ⟨files_of_shows hs, _, planOf_of_shows hp hs, ?_,
    get?_shownTweaks o, ?_⟩⟩
  · exact (Dialog.delivers_of_shows hp hs).tweaks
  · exact forall_congr' fun f => forall_congr' told_shownTweaks_iff

open Separators in
theorem tweaks_told_repeating :
    let d := (Dialog.play (ending repeating) (opened repeating) [.act (.showTweaks 2)]).2
    Reachable (ending repeating) d ∧ d.top? = some (.complete (page repeating 2)) ∧
      ∃ plan, planOf d = .ok plan ∧ ∀ f ∈ repeating, Told plan.tweaks f := by
  intro d
  have hr : Reachable (ending repeating) d :=
    ⟨⟨"Mod", ["Mod"]⟩, opened repeating, [.act (.showTweaks 2)],
      Prod.ext rfl (by decide +kernel), rfl⟩
  have hp : d.top? = some (.complete (page repeating 2)) := rfl
  have hshows : Shows (ending repeating) d (.complete (page repeating 2))
      (.done "e" (outcome repeating) none) := ⟨"e", outcome repeating, none, 2, rfl, rfl⟩
  obtain ⟨-, plan, hplan, -, -, hiff⟩ := (tweaks_told_iff hr hp).2 _ _ _ hshows
  have hlast : ∀ f ∈ repeating, ∀ g ∈ lastShown? (outcome repeating) (slashed f.1),
      (f.2.all g.2.contains) = true := by decide +kernel
  refine ⟨hr, hp, plan, hplan, hiff.mpr fun f hf g hg x hx => ?_⟩
  exact List.contains_iff_mem.mp (List.all_eq_true.mp (hlast f hf g hg) x hx)

open Separators in
/-- Of two names that differ in their separators both rows are shown, but the tweak of the first is
not told under any name. -/
theorem tweaks_not_told_clashing :
    (opened clashing).topComplete?.map (fun p => p.files.map (·.name)) =
      some ["a/b.ini", "a/b.ini"] ∧
      (planOf (opened clashing)).toOption.map (·.tweaks.entries) =
        some [("a/b.ini", [giving "y" 2])] ∧
      ¬ ∀ f ∈ clashing, Told (shownTweaks (outcome clashing)) f := by
  decide +kernel

end ModWizard.Installer
