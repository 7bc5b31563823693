import Mathlib.Data.List.Nodup
import Mathlib.Data.List.Pairwise
import ModWizard.Proofs.Dialog.Ending
import ModWizard.Proofs.Tweak.Layout

/-!
# The plugins on the page at the end

The page at the end is to name the plugins of the sub-packages that the outcome has chosen, each
once, and to have those checked that the outcome wants.  It names the plugins of all sub-packages,
and each as often as it occurs in them (`perm_pluginNames`).  So it is right only where no plugin is
in two sub-packages or in one that is not chosen (`tellsPlugins_iff`).
-/

namespace ModWizard.Dialog

/-- That some names are those that pass a test, in order and each once. -/
structure Enumerates (P : String → Prop) (names : List String) : Prop where
  sorted : names.Pairwise (· ≤ ·)
  nodup : names.Nodup
  mem_iff : ∀ n, n ∈ names ↔ P n

/-- That a plugin is one of a sub-package that an outcome has chosen. -/
def IsChosen (packages : List Package) (o : Outcome) (n : String) : Prop :=
  ∃ k ∈ packages, k.name ∈ o.packages ∧ n ∈ k.plugins

/-- That of the plugins which pass a test none is there twice, be it in one sub-package or in two,
and none is in a sub-package that is not chosen. -/
structure Unmixed (packages : List Package) (o : Outcome) (test : String → Bool) : Prop where
  nodup : ((packages.flatMap (·.plugins)).filter test).Nodup
  chosen : ∀ k ∈ packages, k.name ∉ o.packages → ∀ n ∈ k.plugins, test n = false

/-- What a page at the end is to say of plugins: it lists those of the chosen sub-packages, and
those among them that the outcome wants are checked. -/
structure TellsPlugins (packages : List Package) (o : Outcome) (p : CompletePage) : Prop where
  listed : Enumerates (IsChosen packages o) (p.plugins.map (·.name))
  checked : Enumerates (fun n => IsChosen packages o n ∧ n ∈ o.plugins) p.checkedPlugins

variable {packages : List Package} {o : Outcome} {test : String → Bool}

/-! ### Plugins of several sub-packages -/

/-- A plugin that is there once is in one sub-package. -/
theorem eq_of_mem_plugins (h : ((packages.flatMap (·.plugins)).filter test).Nodup) {k l : Package}
    (hk : k ∈ packages) (hl : l ∈ packages) {n : String} (hn : test n = true) (hnk : n ∈ k.plugins)
    (hnl : n ∈ l.plugins) : k = l := by
  rw [List.filter_flatMap, List.nodup_flatMap] at h
  have hsymm : Std.Symm (Function.onFun List.Disjoint fun k : Package => k.plugins.filter test) :=
    ⟨fun _ _ => List.disjoint_symm⟩
  by_contra hne
  exact h.2.forall hk hl hne (List.mem_filter.mpr ⟨hnk, hn⟩) (List.mem_filter.mpr ⟨hnl, hn⟩)

theorem perm_pluginNames (packages : List Package) :
    (CompletePage.pluginNames packages).Perm (packages.flatMap (·.plugins)) :=
  List.mergeSort_perm _ _

theorem pairwise_pluginNames (packages : List Package) :
    (CompletePage.pluginNames packages).Pairwise (· ≤ ·) :=
  Tweak.pairwise_mergeSort_on id _

theorem mem_pluginNames {n : String} :
    n ∈ CompletePage.pluginNames packages ↔ ∃ k ∈ packages, n ∈ k.plugins := by
  rw [(perm_pluginNames packages).mem_iff, List.mem_flatMap]

/-- The plugins of all sub-packages that pass a test are those of the chosen ones if nothing is
mixed up, and only then. -/
theorem enumerates_filter_pluginNames_iff :
    Enumerates (fun n => IsChosen packages o n ∧ test n = true)
        ((CompletePage.pluginNames packages).filter test) ↔ Unmixed packages o test := by
  have hperm := (perm_pluginNames packages).filter test
  constructor
  · intro h
    have hnodup := hperm.nodup_iff.mp h.nodup
    refine ⟨hnodup, fun k hk hunchosen n hn => Bool.eq_false_iff.mpr fun htest => ?_⟩
    have hmem := List.mem_filter.mpr ⟨mem_pluginNames.mpr ⟨k, hk, hn⟩, htest⟩
    obtain ⟨⟨l, hl, hchosen, hnl⟩, -⟩ := (h.mem_iff n).mp hmem
    exact hunchosen (eq_of_mem_plugins hnodup hk hl htest hn hnl ▸ hchosen)
  · intro h
    refine ⟨(pairwise_pluginNames packages).sublist List.filter_sublist,
      hperm.nodup_iff.mpr h.nodup,
      fun n => ?_⟩
    rw [List.mem_filter, mem_pluginNames]
    refine and_congr_left fun htest => exists_congr fun k => and_congr_right fun hk => ?_
    constructor
    · intro hn
      refine ⟨Decidable.byContradiction fun hunchosen => ?_, hn⟩
      cases htest.symm.trans (h.chosen k hk hunchosen n hn)
    · exact And.right

/-! ### The page -/

theorem map_name_plugins_create (packages : List Package) (o : Outcome) :
    (CompletePage.create packages o).plugins.map (·.name) = CompletePage.pluginNames packages := by
  rw [CompletePage.plugins_create, List.map_map]
  exact List.map_id _

theorem checkedPlugins_create (packages : List Package) (o : Outcome) :
    (CompletePage.create packages o).checkedPlugins =
      (CompletePage.pluginNames packages).filter o.plugins.contains := by
  rw [CompletePage.checkedPlugins, CompletePage.plugins_create, List.filter_map, List.map_map]
  exact List.map_id _

theorem enumerates_plugins_iff :
    Enumerates (IsChosen packages o) ((CompletePage.create packages o).plugins.map (·.name)) ↔
      Unmixed packages o fun _ => true := by
  rw [map_name_plugins_create, ← enumerates_filter_pluginNames_iff, List.filter_true]
  simp only [and_true]

theorem enumerates_checkedPlugins_iff :
    Enumerates (fun n => IsChosen packages o n ∧ n ∈ o.plugins)
        (CompletePage.create packages o).checkedPlugins ↔
          Unmixed packages o o.plugins.contains := by
  rw [checkedPlugins_create, ← enumerates_filter_pluginNames_iff]
  simp only [List.contains_iff_mem]

/-- Where the list is right, so are the plugins that are checked in it. -/
theorem Unmixed.of_all (h : Unmixed packages o fun _ => true) (test : String → Bool) :
    Unmixed packages o test where
  nodup := (by simpa using h.nodup : (packages.flatMap (·.plugins)).Nodup).filter test
  chosen k hk hunchosen n hn := Bool.noConfusion (h.chosen k hk hunchosen n hn)

theorem tellsPlugins_iff :
    TellsPlugins packages o (CompletePage.create packages o) ↔
      Unmixed packages o fun _ => true := by
  constructor
  · intro h
    exact enumerates_plugins_iff.mp h.listed
  · intro h
    exact ⟨enumerates_plugins_iff.mpr h, enumerates_checkedPlugins_iff.mpr (h.of_all _)⟩

/-! ### Runs -/

/-- Whatever the user does, the plugins on the page at the end are those of the page made for the
outcome. -/
theorem Reachable.plugins_eq {setup : Setup} {d : Dialog} {p : CompletePage}
    (h : Reachable setup d) (hp : d.top? = some (.complete p)) : ∃ source k o next,
      stopFrom? setup source = some (.done k o next) ∧
      p.plugins = (CompletePage.create setup.packages o).plugins ∧
      d.query .plugins = .ok (.plugins (CompletePage.create setup.packages o).checkedPlugins) := by
  obtain ⟨source, k, o, next, hstop, _, _, _, row, hs, rfl⟩ := h.shows_outcome hp
  cases hs
  refine ⟨source, k, o, next, hstop, CompletePage.plugins_setRow _ row, ?_⟩
  rw [(query_of_topComplete hp).2.1, CompletePage.checkedPlugins, CompletePage.plugins_setRow]
  rfl

namespace Alternatives

/-- Two sub-packages with the same plugin, of which the larger has another one too. -/
def sizes : List Package :=
  [⟨"00 Small", ["00 Small/a.esp"], ["a.esp"]⟩,
   ⟨"01 Large", ["01 Large/a.esp", "01 Large/b.esp"], ["a.esp", "b.esp"]⟩]

/-- A sub-package with two plugins and one without. -/
def others : List Package :=
  [⟨"00 Core", ["00 Core/b.esp", "00 Core/read.txt", "00 Core/a.esp"], ["b.esp", "a.esp"]⟩,
   ⟨"01 Docs", ["01 Docs/read.txt"], []⟩]

/-- An outcome with one sub-package, of which one plugin is wanted. -/
def outcome (package : String) : Outcome := ⟨[package], ["a.esp"], [], ∅, ∅⟩

/-- A script that comes to its outcome at once. -/
def setup : Setup where
  organizer := ⟨.plain 9, "Game", "1.0", "1.0", none, none, [], [], ∅, ∅⟩
  script := ⟨"e", .ofList [("e", ⟨"e", .done (outcome "00 Core") none⟩)]⟩
  packages := others
  images := ∅
  remembered := ∅

/-- The dialog as it is opened, on the page at the end. -/
def opened : Dialog := (start setup (blank ⟨"Mod", ["Mod"]⟩)).1

end Alternatives

/-- The page at the end lists the plugins of all sub-packages in order, chosen or not, and each as
often as it occurs in them.  It says of plugins what it should if and only if none occurs twice and
none is in a sub-package that is not chosen.  For the plugins that are checked on it this has to
hold of those that the outcome wants only.  So it stays in every run. -/
theorem plugins_listed_iff (setup : Setup) :
    (∀ o,
      ((CompletePage.create setup.packages o).plugins.map (·.name)).Perm
          (setup.packages.flatMap (·.plugins)) ∧
      (TellsPlugins setup.packages o (.create setup.packages o) ↔
        Unmixed setup.packages o fun _ => true) ∧
      (Enumerates (fun n => IsChosen setup.packages o n ∧ n ∈ o.plugins)
          (CompletePage.create setup.packages o).checkedPlugins ↔
        Unmixed setup.packages o o.plugins.contains)) ∧
    ∀ d p, Reachable setup d → d.top? = some (.complete p) → ∃ source k o next,
      stopFrom? setup source = some (.done k o next) ∧
      p.plugins = (CompletePage.create setup.packages o).plugins ∧
      d.query .plugins = .ok (.plugins (CompletePage.create setup.packages o).checkedPlugins) := by
  refine ⟨fun o => ⟨?_, tellsPlugins_iff, enumerates_checkedPlugins_iff⟩,
    fun d p hd hp => hd.plugins_eq hp⟩
  rw [map_name_plugins_create]
  exact perm_pluginNames setup.packages

open Alternatives in
theorem plugins_listed_core :
    TellsPlugins others (outcome "00 Core") (.create others (outcome "00 Core")) ∧
      Reachable setup opened ∧
      opened.top? = some (.complete (.create others (outcome "00 Core"))) ∧
      opened.query .plugins = .ok (.plugins ["a.esp"]) := by
  have hunmixed : Unmixed others (outcome "00 Core") fun _ => true := ⟨by decide, by decide⟩
  have hd : Reachable setup opened :=
    ⟨⟨"Mod", ["Mod"]⟩, opened, [], Prod.ext rfl (by decide +kernel), rfl⟩
  have htop : opened.top? = some (.complete (.create others (outcome "00 Core"))) := rfl
  have hchecked : (CompletePage.create others (outcome "00 Core")).checkedPlugins = ["a.esp"] := by
    have hwanted :
        (others.flatMap (·.plugins)).filter (outcome "00 Core").plugins.contains = ["a.esp"] := by
      decide
    have hperm := (perm_pluginNames others).filter (outcome "00 Core").plugins.contains
    rw [hwanted, List.perm_singleton] at hperm
    rw [checkedPlugins_create, hperm]
  obtain ⟨hpage, hruns⟩ := plugins_listed_iff setup
  obtain ⟨_, _, o, _, -, hplugins, hquery⟩ := hruns opened _ hd htop
  refine ⟨(hpage (outcome "00 Core")).2.1.mpr hunmixed, hd, htop, ?_⟩
  rw [hquery, ← hchecked, CompletePage.checkedPlugins, CompletePage.checkedPlugins, hplugins]

open Alternatives in
/-- A plugin of a sub-package that is not chosen is listed, and one that is in two is listed and
told twice. -/
theorem plugins_not_listed_alternatives :
    (CompletePage.create sizes (outcome "00 Small")).plugins =
        [⟨"a.esp", true⟩, ⟨"a.esp", true⟩, ⟨"b.esp", false⟩] ∧
      (CompletePage.create sizes (outcome "00 Small")).checkedPlugins = ["a.esp", "a.esp"] ∧
      ¬ IsChosen sizes (outcome "00 Small") "b.esp" ∧
      ¬ TellsPlugins sizes (outcome "00 Small") (.create sizes (outcome "00 Small")) := by
  have hall : sizes.flatMap (·.plugins) = ["a.esp", "a.esp", "b.esp"] := by decide
  have hnames : CompletePage.pluginNames sizes = ["a.esp", "a.esp", "b.esp"] := by
    rw [CompletePage.pluginNames, hall]
    exact List.mergeSort_of_pairwise (by decide)
  refine ⟨?_, ?_, ?_, fun h => ?_⟩
  · rw [CompletePage.plugins_create, hnames]
    decide
  · rw [checkedPlugins_create, hnames]
    decide
  · unfold IsChosen
    decide
  · have hnodup := h.listed.nodup
    rw [map_name_plugins_create, hnames] at hnodup
    exact absurd hnodup (by decide)

end ModWizard.Dialog
