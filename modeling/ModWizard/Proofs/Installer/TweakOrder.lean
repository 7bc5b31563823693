import Mathlib.Data.List.Pairwise
import ModWizard.Proofs.Installer.TweakFiles

/-!
# The order of tweak files

What comes of writing tweak files hangs on their order.  A file that was written is found like one
of the archive, but was never extracted; it gives way to another file of the same place; and a file
that stands in for a folder is in the way of what goes into the folder.  The order does not matter
exactly if no file blocks another one, before or after it, and files of one goal have one text
(`writeTweaks_perm_iff`).
-/

namespace ModWizard.Installer

/-! ### What the tree holds -/

/-- What stands at a place when files were added at other places, none on the way to another. -/
def kindAfter (qs : List (List String)) (k : Option Kind) (p : List String) : Option Kind :=
  if p ∈ qs then some (.file none)
  else if ∃ q ∈ qs, p <+: q then some .folder
  else if ∃ q ∈ qs, q <+: p then none
  else k

theorem kindAfter_congr {qs rs : List (List String)} (h : ∀ q, q ∈ qs ↔ q ∈ rs) (k : Option Kind)
    (p : List String) : kindAfter qs k p = kindAfter rs k p := by
  simp only [kindAfter, h]

theorem kindAfter_cons {q : List String} {qs : List (List String)}
    (h : ∀ r ∈ qs, (q <+: r → q = r) ∧ (r <+: q → r = q)) (k : Option Kind) (p : List String) :
    kindAfter (q :: qs) k p = kindAfter qs (kindAfter [q] k p) p := by
  by_cases hmem : p ∈ qs
  · simp [kindAfter, hmem]
  obtain rfl | hp := eq_or_ne p q
  · -- no other place is on the way to this one or behind it
    have habove : ¬ ∃ r ∈ qs, p <+: r := fun ⟨r, hr, hpr⟩ => hmem (by rwa [(h r hr).1 hpr])
    have hbelow : ¬ ∃ r ∈ qs, r <+: p := fun ⟨r, hr, hpr⟩ => hmem (by rwa [← (h r hr).2 hpr])
    simp [kindAfter, hmem, habove, hbelow]
  by_cases habove : ∃ r ∈ qs, p <+: r
  · simp [kindAfter, hmem, hp, habove]
  by_cases hq : p <+: q
  · have hbelow : ¬ ∃ r ∈ qs, r <+: p := fun ⟨r, hr, hpr⟩ => by
      rw [(h r hr).2 (hpr.trans hq)] at hpr
      exact hp (hq.eq_of_length_le hpr.length_le)
    simp [kindAfter, hmem, hp, habove, hbelow, hq]
  by_cases hbelow : ∃ r ∈ qs, r <+: p
  · simp [kindAfter, hmem, hp, habove, hbelow, hq]
  · simp [kindAfter, hmem, hp, habove, hbelow, hq]

variable {x : Extracted} {t t' : Tree} {f g : String × List Tweak}
  {fs gs : List (String × List Tweak)} {l l' : Log}

/-- No two files, in either order, block one another. -/
def Apart (t : Tree) (f g : String × List Tweak) : Prop :=
  ¬ Blocks t f.1 g.1 ∧ ¬ Blocks t g.1 f.1

instance (t : Tree) (f g : String × List Tweak) : Decidable (Apart t f g) :=
  inferInstanceAs (Decidable (_ ∧ _))

/-- The goals of files that do not block each other are not on the way to each other. -/
theorem Apart.goals_eq (h : Apart t f g) :
    (Tree.place (goal t f.1) <+: Tree.place (goal t g.1) →
        Tree.place (goal t f.1) = Tree.place (goal t g.1)) ∧
      (Tree.place (goal t g.1) <+: Tree.place (goal t f.1) →
        Tree.place (goal t g.1) = Tree.place (goal t f.1)) :=
  ⟨fun hp => by_contra fun hne => h.1 (.inr ⟨hp, hne⟩),
    fun hp => by_contra fun hne => h.2 (.inr ⟨hp, hne⟩)⟩

/-- What the tree holds in the end is a matter of the goals alone. -/
theorem kindAt?_writeTweaks (ht : t.Tidy) (hname : ∀ f ∈ fs, '\\' ∉ f.1.toList)
    (hapart : fs.Pairwise (Apart t)) (h : (writeTweaks x fs t).run.run l = (.ok t', l'))
    (p : List String) :
    t'.kindAt? p = kindAfter (fs.map fun f => Tree.place (goal t f.1)) (t.kindAt? p) p := by
  induction fs generalizing t l with
  | nil =>
    cases h
    simp [kindAfter]
  | cons f fs ih =>
    obtain ⟨u, k, hone, hu, hrest, hsame⟩ := of_run_writeTweaks_cons ht hname h
    obtain ⟨-, hadd, -⟩ := of_run_writeTweak hone
    obtain ⟨hfirst, hpair⟩ := List.pairwise_cons.mp hapart
    have hapart' : fs.Pairwise (Apart u) := hpair.imp_of_mem fun hg hg' ha =>
      ⟨mt (blocks_congr (hsame _ hg) (hsame _ hg')).mp ha.1,
        mt (blocks_congr (hsame _ hg') (hsame _ hg)).mp ha.2⟩
    have hgoals : fs.map (fun g => Tree.place (goal u g.1)) =
        fs.map fun g => Tree.place (goal t g.1) :=
      List.map_congr_left fun g hg => by rw [goal_congr (hsame g hg)]
    have hone : u.kindAt? p = kindAfter [Tree.place (goal t f.1)] (t.kindAt? p) p := by
      rw [Tree.kindAt?_addFile hadd]
      simp [kindAfter, Tree.place]
    have heq : ∀ r ∈ fs.map fun g => Tree.place (goal t g.1),
        (Tree.place (goal t f.1) <+: r → Tree.place (goal t f.1) = r) ∧
          (r <+: Tree.place (goal t f.1) → r = Tree.place (goal t f.1)) := fun r hr => by
      obtain ⟨g, hg, rfl⟩ := List.mem_map.mp hr
      exact (hfirst g hg).goals_eq
    rw [ih hu (List.forall_mem_cons.mp hname).2 hapart' hrest, hgoals, hone, List.map_cons,
      kindAfter_cons heq]

/-! ### What was written -/

/-- What a list gives last for a place. -/
def lastAt? (xs : List (List String × Option String)) (p : List String) : Option String :=
  (xs.reverse.find? (·.1 == p)).bind (·.2)

/-- The text of the file that was made last at a place. -/
def Log.textAt? (l : Log) (p : List String) : Option String :=
  lastAt? (l.created.map fun c => (Tree.place c.path, c.text)) p

theorem lastAt?_concat (xs : List (List String × Option String)) (p : List String)
    (s : Option String) : lastAt? (xs ++ [(p, s)]) p = s := by
  simp [lastAt?]

section Same

variable {xs ys : List (List String × Option String)}
  (h : ∀ x ∈ xs, ∀ y ∈ xs, x.1 = y.1 → x.2 = y.2)

include h

theorem lastAt?_of_mem {x : List String × Option String} (hx : x ∈ xs) : lastAt? xs x.1 = x.2 := by
  have hsome : (xs.reverse.find? (·.1 == x.1)).isSome = true := by
    rw [List.find?_isSome]
    exact ⟨x, by simpa using hx, by simp⟩
  obtain ⟨y, hy⟩ := Option.isSome_iff_exists.mp hsome
  have hkey : y.1 = x.1 := by simpa using List.find?_some hy
  have hmem : y ∈ xs := by simpa using List.mem_of_find?_eq_some hy
  rw [lastAt?, hy, Option.bind_some, h y hmem x hx hkey]

/-- If a list gives one thing for each place, its order does not matter. -/
theorem lastAt?_perm (hp : ys.Perm xs) (p : List String) : lastAt? ys p = lastAt? xs p := by
  have h' : ∀ x ∈ ys, ∀ y ∈ ys, x.1 = y.1 → x.2 = y.2 := fun x hx y hy =>
    h x (hp.mem_iff.mp hx) y (hp.mem_iff.mp hy)
  by_cases hex : ∃ x ∈ xs, x.1 = p
  · obtain ⟨x, hx, rfl⟩ := hex
    rw [lastAt?_of_mem h hx, lastAt?_of_mem h' (hp.mem_iff.mpr hx)]
  · have hnone : ∀ zs : List (List String × Option String), (∀ z ∈ zs, z ∈ xs) →
        lastAt? zs p = none := fun zs hzs => by
      have hfind : zs.reverse.find? (·.1 == p) = none := by
        rw [List.find?_eq_none]
        intro z hz he
        exact hex ⟨z, hzs z (by simpa using hz), by simpa using he⟩
      rw [lastAt?, hfind, Option.bind_none]
    rw [hnone ys fun z hz => hp.mem_iff.mp hz, hnone xs fun z hz => hz]

end Same

theorem textAt?_writeTweaks (ht : t.Tidy) (hname : ∀ f ∈ fs, '\\' ∉ f.1.toList)
    (hl : l.created = []) (h : (writeTweaks x fs t).run.run l = (.ok t', l')) (p : List String) :
    l'.textAt? p = lastAt? (fs.map fun f => (Tree.place (goal t f.1), text? x t f)) p := by
  obtain ⟨cs, hcs, hmap⟩ := created_writeTweaks ht hname h
  rw [Log.textAt?, hcs, hl, List.nil_append, hmap]

/-! ### Every order -/

/-- What comes of writing tweak files: what stands at each place of the tree, and the texts of the
files that were made.  Nothing does if one of them cannot be written. -/
def outcome? (x : Extracted) (t : Tree) (l : Log) (fs : List (String × List Tweak)) :
    Option ((List String → Option Kind) × (List String → Option String)) :=
  match (writeTweaks x fs t).run.run l with
  | (.ok t', l') => some (t'.kindAt?, l'.textAt?)
  | (.error _, _) => none

/-- That what comes of writing the files does not hang on their order. -/
def OrderFree (x : Extracted) (t : Tree) (l : Log) (fs : List (String × List Tweak)) : Prop :=
  ∀ gs, gs.Perm fs → outcome? x t l gs = outcome? x t l fs

/-- That the files are written in every order, and the same comes of it. -/
def WrittenFreely (x : Extracted) (t : Tree) (l : Log) (fs : List (String × List Tweak)) : Prop :=
  ∃ (kinds : List String → Option Kind) (texts : List String → Option String),
    ∀ gs, gs.Perm fs → ∃ t' l', (writeTweaks x gs t).run.run l = (.ok t', l') ∧
      ∀ p, t'.kindAt? p = kinds p ∧ l'.textAt? p = texts p

theorem outcome?_eq_some {kinds : List String → Option Kind} {texts : List String → Option String} :
    outcome? x t l fs = some (kinds, texts) ↔
      ∃ t' l', (writeTweaks x fs t).run.run l = (.ok t', l') ∧
        ∀ p, t'.kindAt? p = kinds p ∧ l'.textAt? p = texts p := by
  unfold outcome?
  rcases (writeTweaks x fs t).run.run l with ⟨f | t', l'⟩
  · exact iff_of_false (fun h => by cases h) fun ⟨_, _, h, _⟩ => by cases h
  · constructor
    · rintro ⟨⟩
      exact ⟨t', l', rfl, fun p => ⟨rfl, rfl⟩⟩
    · rintro ⟨_, _, ⟨⟩, hall⟩
      exact congrArg some (Prod.ext (funext fun p => (hall p).1) (funext fun p => (hall p).2))

theorem outcome?_eq_none :
    outcome? x t l fs = none ↔ ¬ ∃ t' l', (writeTweaks x fs t).run.run l = (.ok t', l') := by
  unfold outcome?
  rcases (writeTweaks x fs t).run.run l with ⟨f | t', l'⟩
  · exact iff_of_true rfl fun ⟨_, _, h⟩ => by cases h
  · exact iff_of_false (fun h => by cases h) fun h => h ⟨t', l', rfl⟩

/-- The order does not matter if the files are written in every order, or in none. -/
theorem orderFree_iff :
    OrderFree x t l fs ↔
      WrittenFreely x t l fs ∨
        ∀ gs, gs.Perm fs → ¬ ∃ t' l', (writeTweaks x gs t).run.run l = (.ok t', l') := by
  constructor
  · intro h
    cases hfs : outcome? x t l fs with
    | none => exact .inr fun gs hp => outcome?_eq_none.mp ((h gs hp).trans hfs)
    | some o => exact .inl ⟨o.1, o.2, fun gs hp => outcome?_eq_some.mp ((h gs hp).trans hfs)⟩
  · rintro (⟨kinds, texts, h⟩ | h) gs hp
    · rw [outcome?_eq_some.mpr (h gs hp), outcome?_eq_some.mpr (h fs (.refl fs))]
    · rw [outcome?_eq_none.mpr (h gs hp), outcome?_eq_none.mpr (h fs (.refl fs))]

section Orders

variable (ht : t.Tidy) (hname : ∀ f ∈ fs, '\\' ∉ f.1.toList)

include ht hname

theorem exists_writeTweaks_perm_iff (hp : gs.Perm fs) (l : Log) :
    (∃ t' l', (writeTweaks x gs t).run.run l = (.ok t', l')) ↔
      (∀ f ∈ fs, Fits x t f) ∧ gs.Pairwise fun f g => ¬ Blocks t f.1 g.1 := by
  rw [exists_writeTweaks_iff ht (fun f hf => hname f (hp.mem_iff.mp hf)) l]
  simp only [hp.mem_iff]

/-- In files that can be written forwards and backwards none blocks another. -/
theorem WrittenFreely.apart (h : WrittenFreely x t l fs) :
    (∀ f ∈ fs, Fits x t f) ∧ fs.Pairwise (Apart t) := by
  obtain ⟨kinds, texts, h⟩ := h
  obtain ⟨t₁, l₁, h₁, -⟩ := h fs (.refl fs)
  obtain ⟨t₂, l₂, h₂, -⟩ := h fs.reverse fs.reverse_perm
  obtain ⟨hfits, hpair⟩ := (exists_writeTweaks_iff ht hname l).mp ⟨t₁, l₁, h₁⟩
  obtain ⟨-, hback⟩ := (exists_writeTweaks_perm_iff ht hname fs.reverse_perm l).mp ⟨t₂, l₂, h₂⟩
  exact ⟨hfits, hpair.and (List.pairwise_reverse.mp hback)⟩

variable (hl : l.created = [])

include hl

/-- Any file can be the last one of its goal. -/
theorem WrittenFreely.text?_eq (h : WrittenFreely x t l fs) (hf : f ∈ fs) (hg : g ∈ fs)
    (hgoal : Tree.place (goal t f.1) = Tree.place (goal t g.1)) : text? x t f = text? x t g := by
  obtain ⟨kinds, texts, h⟩ := h
  have hlast : ∀ f ∈ fs, texts (Tree.place (goal t f.1)) = text? x t f := fun f hf => by
    have hperm : (fs.erase f ++ [f]).Perm fs :=
      List.perm_append_comm.trans (List.perm_cons_erase hf).symm
    obtain ⟨t', l', hrun, hall⟩ := h _ hperm
    have hname' := fun f hf => hname f (hperm.mem_iff.mp hf)
    rw [← (hall _).2, textAt?_writeTweaks ht hname' hl hrun, List.map_append, List.map_singleton,
      lastAt?_concat]
  rw [← hlast f hf, hgoal, hlast g hg]

theorem writtenFreely_of_apart (hfits : ∀ f ∈ fs, Fits x t f) (hapart : fs.Pairwise (Apart t))
    (htext : ∀ f ∈ fs, ∀ g ∈ fs, Tree.place (goal t f.1) = Tree.place (goal t g.1) →
      text? x t f = text? x t g) : WrittenFreely x t l fs := by
  refine ⟨fun p => kindAfter (fs.map fun f => Tree.place (goal t f.1)) (t.kindAt? p) p,
    lastAt? (fs.map fun f => (Tree.place (goal t f.1), text? x t f)), fun gs hp => ?_⟩
  have hname' := fun f hf => hname f (hp.mem_iff.mp hf)
  have hapart' : gs.Pairwise (Apart t) := hp.symm.pairwise hapart fun h => ⟨h.2, h.1⟩
  obtain ⟨t', l', hrun⟩ := (exists_writeTweaks_perm_iff ht hname hp l).mpr
    ⟨hfits, hapart'.imp And.left⟩
  refine ⟨t', l', hrun, fun p => ⟨?_, ?_⟩⟩
  · rw [kindAt?_writeTweaks ht hname' hapart' hrun]
    exact kindAfter_congr (fun q => (hp.map _).mem_iff) _ p
  · rw [textAt?_writeTweaks ht hname' hl hrun]
    refine lastAt?_perm ?_ (hp.map _) p
    simp only [List.mem_map]
    rintro _ ⟨f, hf, rfl⟩ _ ⟨g, hg, rfl⟩
    dsimp only
    exact htext f hf g hg

end Orders

/-! ### Some files -/

namespace Rivals

/-- A tree with an extracted file. -/
def tree : Tree := .file "obse.txt" (some 0) (.folder "Docs" (.file "a.ini" (some 1) .nil) .nil)

/-- That file, and the disk with it. -/
def extracted : Extracted where
  disk := ((Disk.bare.put ["x"] .folder).put ["x", "P"] .folder).put ["x", "P", "obse.txt"]
    (.file "set a to 1".toByteArray)
  entries := [(["P", "obse.txt"], .file "obse.txt" (some 0))]
  paths := ["x/wizard.txt", "x/P/obse.txt"]
  length_paths := rfl

/-- The log at the start. -/
def log : Log := ⟨[], [], []⟩

/-- The tweak file of a name that gives a setting a number. -/
def giving (name : String) (n : Int) : String × List Tweak :=
  (name, [.edit ⟨"set", "a", .int n, none⟩])

/-- A file that is merged, one that is named with its folder, and one that is put there. -/
def peaceful : List (String × List Tweak) :=
  [giving "OBSE.txt" 2, giving "ini tweaks/a.ini" 3, giving "b.ini" 4]

/-- Writes tweak files to the tree. -/
def write (fs : List (String × List Tweak)) : Except Fault Tree × Log :=
  (writeTweaks extracted fs tree).run.run log

end Rivals

/-- The files are written in an order exactly if each fits and none blocks a later one in it.  They
are written in every order, with the same outcome, exactly if, beyond that, none blocks an earlier
one, and files with one goal have one text.  The order does not matter exactly if this is so, or if
they cannot be written in any order. -/
theorem writeTweaks_perm_iff (ht : t.Tidy) (hname : ∀ f ∈ fs, '\\' ∉ f.1.toList)
    (hl : l.created = []) :
    (∀ gs, gs.Perm fs →
      ((∃ t' l', (writeTweaks x gs t).run.run l = (.ok t', l')) ↔
        (∀ f ∈ fs, Fits x t f) ∧ gs.Pairwise fun f g => ¬ Blocks t f.1 g.1)) ∧
    (WrittenFreely x t l fs ↔
      (∀ f ∈ fs, Fits x t f) ∧ fs.Pairwise (Apart t) ∧
        ∀ f ∈ fs, ∀ g ∈ fs, Tree.place (goal t f.1) = Tree.place (goal t g.1) →
          text? x t f = text? x t g) ∧
    (OrderFree x t l fs ↔
      WrittenFreely x t l fs ∨
        ∀ gs : List (String × List Tweak), gs.Perm fs →
          ¬ ((∀ f ∈ fs, Fits x t f) ∧ gs.Pairwise fun f g => ¬ Blocks t f.1 g.1)) := by
  have hwritten := fun (gs : List (String × List Tweak)) (hp : gs.Perm fs) =>
    exists_writeTweaks_perm_iff (x := x) ht hname hp l
  refine ⟨hwritten, ⟨fun h => ?_, ?_⟩, ?_⟩
  · obtain ⟨hfits, hapart⟩ := h.apart ht hname
    exact ⟨hfits, hapart, fun f hf g hg => h.text?_eq ht hname hl hf hg⟩
  · rintro ⟨hfits, hapart, htext⟩
    exact writtenFreely_of_apart ht hname hl hfits hapart htext
  · rw [orderFree_iff]
    exact or_congr_right (forall₂_congr fun gs hp => not_congr (hwritten gs hp))

theorem orderFree_peaceful :
    Rivals.tree.Tidy ∧ (∀ f ∈ Rivals.peaceful, '\\' ∉ f.1.toList) ∧
      WrittenFreely Rivals.extracted Rivals.tree Rivals.log Rivals.peaceful ∧
      OrderFree Rivals.extracted Rivals.tree Rivals.log Rivals.peaceful := by
  have ht : Rivals.tree.Tidy := by decide +kernel
  have hname : ∀ f ∈ Rivals.peaceful, '\\' ∉ f.1.toList := by decide +kernel
  obtain ⟨-, hwritten, hfree⟩ := writeTweaks_perm_iff (x := Rivals.extracted) ht hname
    (l := Rivals.log) rfl
  have hfreely := hwritten.mpr (by decide +kernel)
  exact ⟨ht, hname, hfreely, hfree.mpr (.inl hfreely)⟩

/-- Of two names for one file the short one must come last; and of two names that differ in their
letters' case the last one wins. -/
theorem write_rivals_order :
    (Rivals.write [Rivals.giving "a.ini" 1, Rivals.giving "INI Tweaks/a.ini" 2]).1 =
        .error .notExtracted ∧
      (Rivals.write [Rivals.giving "INI Tweaks/a.ini" 2, Rivals.giving "a.ini" 1]).1.isOk = true ∧
      (Rivals.write [Rivals.giving "a.ini" 1, Rivals.giving "A.ini" 2]).2.textAt?
        ["ini tweaks", "a.ini"] = some "; Generated by Mod Organizer 2 via Wizard\nset a to 2" ∧
      (Rivals.write [Rivals.giving "A.ini" 2, Rivals.giving "a.ini" 1]).2.textAt?
        ["ini tweaks", "a.ini"] = some "; Generated by Mod Organizer 2 via Wizard\nset a to 1" := by
  decide +kernel

end ModWizard.Installer
