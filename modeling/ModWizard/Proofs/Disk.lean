import ModWizard.Disk

/-!
# Doing the same work again

What is written to the disk can be written again: the folders on the way are there, and where
there was no folder there is none (`write_repeats`).  The second time, less may be there than the
first left, if only there is what the first found.  So the work is followed on two disks, with the
one that the first time leaves as a bound for both (`Work.Repeats`).
-/

namespace ModWizard.Disk

/-- Whether there is a file at a place, or a folder. -/
def kind? (d : Disk) (place : Place) : Option Bool := (d.item? place).map Item.isFile

/-- That what is on a disk is on another, a file as a file and a folder as a folder. -/
def Sub (d e : Disk) : Prop := ∀ place k, d.kind? place = some k → e.kind? place = some k

theorem Sub.refl (d : Disk) : Sub d d := fun _ _ h => h

theorem Sub.trans {d e f : Disk} (hde : Sub d e) (hef : Sub e f) : Sub d f :=
  fun place k h => hef place k (hde place k h)

variable {d e f : Disk} {place : Place} {n : String} {m : Milestone}

theorem any_isFile_item? : (d.item? place).any Item.isFile = true ↔ d.kind? place = some true := by
  unfold kind?
  cases d.item? place <;> simp

theorem any_isFolder_item? :
    (d.item? place).any Item.isFolder = true ↔ d.kind? place = some false := by
  unfold kind?
  cases d.item? place <;> simp [Item.isFolder]

theorem kind?_put (i : Item) (hn : n ≠ "..") (other : Place) :
    (d.put (place ++ [n]) i).kind? other =
      if place ++ [n] = other then some i.isFile else d.kind? other := by
  unfold kind?
  split
  · next h =>
    subst h
    rw [item?_put (by simp [hn]), Option.map_some]
  · next h => rw [item?_put_of_ne h]

theorem kind?_put_self (i : Item) (hn : n ≠ "..") :
    (d.put (place ++ [n]) i).kind? (place ++ [n]) = some i.isFile := by
  rw [kind?_put i hn, if_pos rfl]

theorem sub_put {i : Item} (hn : n ≠ "..")
    (hi : d.kind? (place ++ [n]) ≠ some (!i.isFile)) : Sub d (d.put (place ++ [n]) i) := by
  intro other k hk
  rw [kind?_put i hn]
  split
  · next h =>
    subst h
    have hkind : k = i.isFile := by simpa [hk] using hi
    rw [hkind]
  · exact hk

theorem Sub.put {i : Item} (h : Sub d e) (hn : n ≠ "..")
    (hi : e.kind? (place ++ [n]) = some i.isFile) : Sub (d.put (place ++ [n]) i) e := by
  intro other k hk
  rw [kind?_put i hn] at hk
  split at hk
  · next heq => rw [← heq, hi, hk]
  · exact h other k hk

theorem Sub.put_put {i : Item} (h : Sub d e) (hn : n ≠ "..")
    (hi : e.kind? (place ++ [n]) ≠ some (!i.isFile)) :
    Sub (d.put (place ++ [n]) i) (e.put (place ++ [n]) i) :=
  (h.trans (sub_put hn hi)).put hn (kind?_put_self i hn)

theorem kind?_remove (place other : Place) :
    (d.remove place).kind? other =
      if other.all (· == "..") = false ∧ place.isPrefixOf other then none else d.kind? other := by
  unfold kind? item? remove
  cases h : other.all (· == "..") with
  | true => simp
  | false =>
    cases hp : place.isPrefixOf other <;> simp [hp]

theorem remove_sub (d : Disk) (place : Place) : Sub (d.remove place) d := by
  intro other k hk
  rw [kind?_remove] at hk
  split at hk
  · cases hk
  · exact hk

theorem Sub.remove (h : Sub (d.remove place) e) : Sub (d.remove place) (e.remove place) := by
  intro other k hk
  have he := h other k hk
  rw [kind?_remove] at hk ⊢
  split at hk
  · cases hk
  · next hnot => rw [if_neg hnot, he]

/-! ## Steps -/

theorem step_eq_ok {next : Place} :
    d.step place n = .ok next ↔ d.kind? place = some false ∧
      (n = "." ∧ next = place ∨ n = ".." ∧ next = up place ∨
        n ≠ "." ∧ n ≠ ".." ∧ isTooLong n = false ∧ (d.kind? (place ++ [n])).isSome ∧
          next = place ++ [n]) := by
  unfold step kind?
  rcases d.item? place with _ | (_ | _)
  · simp
  · simp [Item.isFile]
  · simp only [Option.map_some, Item.isFile, Option.isSome_map]
    grind

theorem step_eq_missing (hplace : (d.kind? place).isSome) :
    d.step place n = .error .missing ↔ d.kind? place = some false ∧
      n ≠ "." ∧ n ≠ ".." ∧ isTooLong n = false ∧ d.kind? (place ++ [n]) = none := by
  unfold step kind?
  unfold kind? at hplace
  rcases hitem : d.item? place with _ | (_ | _)
  · simp [hitem] at hplace
  · simp [Item.isFile]
  · simp only [Option.map_some, Item.isFile, ← Option.not_isSome_iff_eq_none]
    grind

theorem check_of_advance {r : Except Fault Place} (h : d.advance place m = r)
    (hr : r = .error .missing ∨ ∃ next, r = .ok next) :
    m.check = .ok () ∧ d.step place m.name = r := by
  subst h
  unfold advance Milestone.check at *
  grind [Except.bind]

theorem advance_of_check (h : m.check = .ok ()) : d.advance place m = d.step place m.name := by
  rw [advance, h]
  rfl

/-- A step that leads somewhere leads there on a disk with more on it. -/
theorem Sub.advance_eq_ok (h : Sub d e) {next : Place} (hd : d.advance place m = .ok next) :
    e.advance place m = .ok next := by
  obtain ⟨hcheck, hstep⟩ := check_of_advance hd (.inr ⟨next, rfl⟩)
  rw [advance_of_check hcheck, step_eq_ok]
  obtain ⟨hfolder, hnext⟩ := step_eq_ok.mp hstep
  refine ⟨h _ _ hfolder, hnext.imp_right (.imp_right ?_)⟩
  rintro ⟨hstay, hup, hlong, hthere, rfl⟩
  obtain ⟨k, hk⟩ := Option.isSome_iff_exists.mp hthere
  exact ⟨hstay, hup, hlong, by simp [h _ _ hk], rfl⟩

theorem pending_le (d : Disk) (place : Place) (ms : List Milestone) :
    d.pending place ms ≤ ms.length := by
  induction ms generalizing place with
  | nil => exact Nat.le_refl _
  | cons m ms ih =>
    rw [pending]
    split
    · exact Nat.le_succ_of_le (ih _)
    · exact Nat.le_refl _

/-- No more is to be made on a disk with more on it. -/
theorem Sub.pending_le (h : Sub d e) (place : Place) (ms : List Milestone) :
    e.pending place ms ≤ d.pending place ms := by
  induction ms generalizing place with
  | nil => exact Nat.le_refl _
  | cons m ms ih =>
    rw [pending.eq_2 d]
    split
    · next next hnext =>
      rw [pending, h.advance_eq_ok hnext]
      exact ih next
    · exact Disk.pending_le e place (m :: ms)

/-! ## Places with a way to them -/

/-- That there is something at a place, and at each on the way to it. -/
inductive Grounded (d : Disk) : Place → Prop
  | ancestor (n : Nat) : Grounded d (List.replicate n "..")
  | child {place : Place} {n : String} (h : Grounded d place) (hn : n ≠ "..")
      (hthere : (d.kind? (place ++ [n])).isSome) : Grounded d (place ++ [n])

theorem Grounded.isSome (h : Grounded d place) : (d.kind? place).isSome := by
  cases h with
  | ancestor n => simp [kind?, item?]
  | child _ _ hthere => exact hthere

theorem Grounded.up (h : Grounded d place) : Grounded d (up place) := by
  cases h with
  | ancestor n =>
    have hup : Disk.up (List.replicate n "..") = List.replicate (n + 1) ".." := by
      cases n with
      | zero => rfl
      | succ n => simp [Disk.up, List.getLast?_replicate, List.replicate_succ']
    rw [hup]
    exact .ancestor (n + 1)
  | child h hn _ => simpa [Disk.up, hn] using h

theorem Grounded.mono (h : Grounded d place) (hsub : Sub d e) : Grounded e place := by
  induction h with
  | ancestor n => exact .ancestor n
  | child _ hn hthere ih =>
    obtain ⟨k, hk⟩ := Option.isSome_iff_exists.mp hthere
    exact .child ih hn (by simp [hsub _ _ hk])

theorem Grounded.step {next : Place} (h : Grounded d place) (hstep : d.step place n = .ok next) :
    Grounded d next := by
  obtain ⟨-, ⟨-, rfl⟩ | ⟨-, rfl⟩ | ⟨-, hup, -, hthere, rfl⟩⟩ := step_eq_ok.mp hstep
  · exact h
  · exact h.up
  · exact .child h hup hthere

/-! ## Work -/

namespace Work

variable {α β : Type} {w : Work α} {P : Disk → Prop} {Q : α → Disk → Prop}

theorem run_bind_eq_ok {g : α → Work β} {b : β} :
    (w >>= g).run.run d = (.ok b, f) ↔
      ∃ a e, w.run.run d = (.ok a, e) ∧ (g a).run.run e = (.ok b, f) := by
  have hrun : (w >>= g).run.run d =
      match w.run.run d with
      | (.ok a, e) => (g a).run.run e
      | (.error x, e) => (.error x, e) := by
    simp only [ExceptT.run_bind, StateT.run_bind]
    rcases w.run.run d with ⟨_ | _, _⟩ <;> rfl
  rw [hrun]
  rcases w.run.run d with ⟨x | a, e⟩
  · constructor
    · intro h
      cases h
    · rintro ⟨a, e', h, -⟩
      cases h
  · constructor
    · exact fun h => ⟨a, e, rfl, h⟩
    · rintro ⟨a', e', h, hg⟩
      cases h
      exact hg

theorem run_pure_eq_ok {a b : α} :
    (pure a : Work α).run.run d = (.ok b, e) ↔ a = b ∧ e = d := by
  constructor
  · intro h
    cases h
    exact ⟨rfl, rfl⟩
  · rintro ⟨rfl, rfl⟩
    rfl

theorem run_lift_eq_ok {r : Except Fault α} {a : α} :
    (ExceptT.mk (pure r) : Work α).run.run d = (.ok a, e) ↔ r = .ok a ∧ e = d := by
  constructor
  · intro h
    cases h
    exact ⟨rfl, rfl⟩
  · rintro ⟨rfl, rfl⟩
    rfl

/-- Work after a check is done if the check does not fail. -/
theorem run_unless_eq_ok {c : Prop} [Decidable c] {x : Fault} {g : PUnit → Work α} {a : α} :
    (if c then throw x >>= g else w).run.run d = (.ok a, e) ↔
      ¬ c ∧ w.run.run d = (.ok a, e) := by
  by_cases hc : c
  · rw [if_pos hc]
    constructor
    · intro h
      cases h
    · exact fun h => absurd hc h.1
  · rw [if_neg hc]
    exact ⟨fun h => ⟨hc, h⟩, fun h => h.2⟩

theorem run_get_eq_ok {a : Disk} : (get : Work Disk).run.run d = (.ok a, e) ↔ a = d ∧ e = d := by
  constructor
  · intro h
    cases h
    exact ⟨rfl, rfl⟩
  · rintro ⟨rfl, rfl⟩
    rfl

theorem run_modify_eq_ok {g : Disk → Disk} {u : PUnit} :
    (modify g : Work PUnit).run.run d = (.ok u, e) ↔ e = g d := by
  constructor
  · intro h
    cases h
    rfl
  · rintro rfl
    rfl

/-- That some work adds to the disk, and can then be done again with the same result: on each
disk that has what was there the first time and no other than there is in the end.  It begins on
a disk with `P`, and ends on one with `Q` of the result. -/
def Repeats (P : Disk → Prop) (w : Work α) (Q : α → Disk → Prop) : Prop :=
  ∀ d a d', P d → w.run.run d = (.ok a, d') → Sub d d' ∧ Q a d' ∧
    ∀ e f, Sub d e → Sub e f → Sub d' f → ∃ e', w.run.run e = (.ok a, e') ∧ Sub d' e' ∧ Sub e' f

theorem repeats_pure {a : α} (h : ∀ d, P d → Q a d) : Repeats P (pure a) Q := by
  intro d _ _ hd hrun
  cases hrun
  exact ⟨.refl d, h d hd, fun e f hde hef _ => ⟨e, rfl, hde, hef⟩⟩

theorem Repeats.bind {g : α → Work β} {R : β → Disk → Prop} (hw : Repeats P w Q)
    (hg : ∀ a, Repeats (Q a) (g a) R) : Repeats P (w >>= g) R := by
  intro d b d₂ hd hrun
  obtain ⟨a, d₁, hrun₁, hrun₂⟩ := run_bind_eq_ok.mp hrun
  obtain ⟨hsub₁, ha, hagain₁⟩ := hw d a d₁ hd hrun₁
  obtain ⟨hsub₂, hb, hagain₂⟩ := hg a d₁ b d₂ ha hrun₂
  refine ⟨hsub₁.trans hsub₂, hb, fun e f hde hef hf => ?_⟩
  obtain ⟨e₁, he₁, hsub, hbound⟩ := hagain₁ e f hde hef (hsub₂.trans hf)
  obtain ⟨e₂, he₂, hsub', hbound'⟩ := hagain₂ e₁ f hsub hbound hf
  exact ⟨e₂, run_bind_eq_ok.mpr ⟨a, e₁, he₁, he₂⟩, hsub', hbound'⟩

theorem repeats_foldlM {γ : Type} {g : γ → α → Work γ} {I : γ → Disk → Prop}
    (hg : ∀ c a, Repeats (I c) (g c a) I) (as : List α) (c : γ) :
    Repeats (I c) (as.foldlM g c) I := by
  induction as generalizing c with
  | nil => exact repeats_pure fun _ h => h
  | cons a as ih =>
    rw [List.foldlM_cons]
    exact (hg c a).bind ih

theorem repeats_forM {g : α → Work Unit} (hg : ∀ a, Repeats P (g a) fun _ => P) (as : List α) :
    Repeats P (as.forM g) fun _ => P := by
  induction as with
  | nil => exact repeats_pure fun _ h => h
  | cons a as ih => exact (hg a).bind fun _ => ih

end Work

theorem enter_eq_ok {next : Place} :
    (enter place m).run.run d = (.ok next, e) ↔
      d.advance place m = .ok next ∧ e = d ∨
      d.advance place m = .error .missing ∧ next = place ++ [m.name] ∧
        e = d.put (place ++ [m.name]) .folder := by
  simp only [enter, Work.run_bind_eq_ok, Work.run_get_eq_ok]
  constructor
  · rintro ⟨a, e', ⟨rfl, rfl⟩, h⟩
    split at h
    · next next' heq =>
      obtain ⟨rfl, rfl⟩ := Work.run_pure_eq_ok.mp h
      exact .inl ⟨heq, rfl⟩
    · next heq =>
      cases h
      exact .inr ⟨heq, rfl, rfl⟩
    · cases h
  · rintro (⟨h, rfl⟩ | ⟨h, rfl, rfl⟩)
    · refine ⟨e, e, ⟨rfl, rfl⟩, ?_⟩
      rw [h]
      rfl
    · refine ⟨d, d, ⟨rfl, rfl⟩, ?_⟩
      rw [h]
      rfl

theorem enter_repeats (place : Place) (m : Milestone) :
    Work.Repeats (Grounded · place) (enter place m) fun next d => Grounded d next := by
  intro d next d' hground hrun
  rcases enter_eq_ok.mp hrun with ⟨hnext, rfl⟩ | ⟨hmissing, rfl, rfl⟩
  · obtain ⟨hcheck, hstep⟩ := check_of_advance hnext (.inr ⟨next, rfl⟩)
    refine ⟨.refl _, hground.step hstep, fun e f hde hef _ => ⟨e, ?_, hde, hef⟩⟩
    exact enter_eq_ok.mpr (.inl ⟨hde.advance_eq_ok hnext, rfl⟩)
  · obtain ⟨hcheck, hstep⟩ := check_of_advance hmissing (.inl rfl)
    obtain ⟨hfolder, hstay, hup, hlong, hnone⟩ := (step_eq_missing hground.isSome).mp hstep
    have hsub : Sub d (d.put (place ++ [m.name]) .folder) := sub_put hup (by simp [hnone])
    have hmade : (d.put (place ++ [m.name]) .folder).kind? (place ++ [m.name]) = some false :=
      kind?_put_self .folder hup
    refine ⟨hsub, .child (hground.mono hsub) hup (by simp [hmade]), fun e f hde hef hf => ?_⟩
    have hbound : f.kind? (place ++ [m.name]) = some false := hf _ _ hmade
    -- The folder is made a second time only if it is not there yet; else there is no other item.
    cases hthere : e.kind? (place ++ [m.name]) with
    | none =>
      refine ⟨e.put (place ++ [m.name]) .folder, enter_eq_ok.mpr (.inr ⟨?_, rfl, rfl⟩), ?_, ?_⟩
      · rw [advance_of_check hcheck, step_eq_missing (hground.mono hde).isSome]
        exact ⟨hde _ _ hfolder, hstay, hup, hlong, hthere⟩
      · exact hde.put_put hup (by simp [hthere])
      · exact hef.put hup hbound
    | some k =>
      have hk : k = false := Option.some.inj ((hef _ _ hthere).symm.trans hbound)
      subst hk
      refine ⟨e, enter_eq_ok.mpr (.inl ⟨?_, rfl⟩), hde.put hup hthere, hef⟩
      rw [advance_of_check hcheck, step_eq_ok]
      exact ⟨hde _ _ hfolder, .inr (.inr ⟨hstay, hup, hlong, by simp [hthere], rfl⟩)⟩

theorem makeFolder_eq_ok {room : Nat} {ms : List Milestone} :
    (makeFolder room ms).run.run d = (.ok place, e) ↔
      d.pending [] ms ≤ room ∧ (ms.foldlM enter []).run.run d = (.ok place, e) ∧
        e.kind? place ≠ some true := by
  simp only [makeFolder, Work.run_bind_eq_ok, Work.run_get_eq_ok, Work.run_unless_eq_ok,
    Work.run_pure_eq_ok, any_isFile_item?, Nat.not_lt]
  constructor
  · rintro ⟨_, _, ⟨rfl, rfl⟩, hpending, _, _, hway, _, _, ⟨rfl, rfl⟩, hfolder, rfl, rfl⟩
    exact ⟨hpending, hway, hfolder⟩
  · rintro ⟨hpending, hway, hfolder⟩
    exact ⟨d, d, ⟨rfl, rfl⟩, hpending, place, e, hway, e, e, ⟨rfl, rfl⟩, hfolder, rfl, rfl⟩

theorem makeFolder_repeats (room : Nat) (ms : List Milestone) :
    Work.Repeats (fun _ => True) (makeFolder room ms) fun place d => Grounded d place := by
  intro d place d' _ hrun
  obtain ⟨hpending, hway, hfolder⟩ := makeFolder_eq_ok.mp hrun
  obtain ⟨hsub, hground, hagain⟩ :=
    Work.repeats_foldlM enter_repeats ms [] d place d' (.ancestor 0) hway
  refine ⟨hsub, hground, fun e f hde hef hf => ?_⟩
  obtain ⟨e', he', hsub', hbound⟩ := hagain e f hde hef hf
  refine ⟨e', makeFolder_eq_ok.mpr ⟨?_, he', ?_⟩, hsub', hbound⟩
  · exact Nat.le_trans (hde.pending_le [] ms) hpending
  · obtain ⟨k, hk⟩ := Option.isSome_iff_exists.mp hground.isSome
    rwa [hsub' _ _ hk, ← hk]

theorem writeIn_eq_ok {content : ByteArray} :
    (writeIn place m content).run.run d = (.ok (), e) ↔
      m.check = .ok () ∧ m.name ≠ "." ∧ m.name ≠ ".." ∧ isTooLong m.name = false ∧
        d.kind? (place ++ [m.name]) ≠ some false ∧
        e = d.put (place ++ [m.name]) (.file content) := by
  simp only [writeIn, Work.run_bind_eq_ok, Work.run_lift_eq_ok, Work.run_unless_eq_ok,
    Work.run_get_eq_ok, Work.run_modify_eq_ok, any_isFolder_item?, Bool.or_eq_true,
    decide_eq_true_eq, not_or, Bool.not_eq_true]
  constructor
  · rintro ⟨_, _, ⟨hcheck, rfl⟩, ⟨hstay, hup⟩, hlong, _, _, ⟨rfl, rfl⟩, hfile, rfl⟩
    exact ⟨hcheck, hstay, hup, hlong, hfile, rfl⟩
  · rintro ⟨hcheck, hstay, hup, hlong, hfile, rfl⟩
    exact ⟨(), d, ⟨hcheck, rfl⟩, ⟨hstay, hup⟩, hlong, d, d, ⟨rfl, rfl⟩, hfile, rfl⟩

theorem writeIn_repeats {P : Disk → Prop} (place : Place) (m : Milestone) (content : ByteArray) :
    Work.Repeats P (writeIn place m content) fun _ _ => True := by
  intro d _ d' _ hrun
  obtain ⟨hcheck, hstay, hup, hlong, hfile, rfl⟩ := writeIn_eq_ok.mp hrun
  have hmade : (d.put (place ++ [m.name]) (.file content)).kind? (place ++ [m.name]) =
      some true :=
    kind?_put_self (.file content) hup
  refine ⟨sub_put hup hfile, trivial, fun e f hde hef hf => ?_⟩
  have hfile' : e.kind? (place ++ [m.name]) ≠ some false := by
    intro hk
    cases (hef _ _ hk).symm.trans (hf _ _ hmade)
  refine ⟨e.put (place ++ [m.name]) (.file content), ?_, ?_, hef.put hup (hf _ _ hmade)⟩
  · exact writeIn_eq_ok.mpr ⟨hcheck, hstay, hup, hlong, hfile', rfl⟩
  · exact hde.put_put hup hfile'

/-- What was written can be written again. -/
theorem write_repeats (room : Nat) (path : String) (content : ByteArray) :
    Work.Repeats (fun _ => True) (write room path content) fun _ _ => True := by
  unfold write
  refine (makeFolder_repeats room _).bind fun place => ?_
  split
  · intro d _ _ _ hrun
    cases hrun
  · next m _ => exact writeIn_repeats place m content

end ModWizard.Disk
