import KConfuzz.Corpus.Corpus
import KConfuzz.Signal.MinimizeTheorems

/-!
# What the corpus keeps

No signal is lost: the signal of the corpus is that of its items together, and that of all inputs
that were ever saved. The list to choose programs from is filled when a program is first saved
and not when its item is replaced, so it has the items of the map exactly as long as no program is
saved that is in the map already.
-/

namespace KConfuzz.Corpus

open Lib.FiniteMap Lib.GradedSet Lib.StableSort List Corpus

variable {P : Type} {env : Env P} {corpus : Corpus P} {e : UInt64} {prio : ℤ}

/-! ## The items -/

def Corpus.items (corpus : Corpus P) : List (Item P) := corpus.progsMap.entries.map Sigma.snd

lemma mem_items {item : Item P} :
    item ∈ corpus.items ↔ ∃ sig, item ∈ corpus.progsMap.lookup sig := by
  simp only [items, mem_map, AList.mem_lookup_iff]
  constructor
  · rintro ⟨⟨sig, _⟩, h, rfl⟩
    exact ⟨sig, h⟩
  · rintro ⟨sig, h⟩
    exact ⟨_, h, rfl⟩

/-- Items are under their signatures. -/
def Corpus.Keyed (corpus : Corpus P) : Prop :=
  ∀ sig, ∀ item ∈ corpus.progsMap.lookup sig, item.sig = sig

/-- What holds of the corpus after the operations, whatever they are. -/
structure Inv (ops : List (Op P)) (corpus : Corpus P) : Prop where
  keyed : corpus.Keyed
  signal_items : ∀ e prio, atLeast corpus.signal e prio = true ↔
    ∃ item ∈ corpus.items, atLeast item.signal e prio = true
  signal_inputs : ∀ e prio, atLeast corpus.signal e prio = true ↔
    ∃ inp, .save inp ∈ ops ∧ atLeast inp.signal e prio = true
  fresh : ∀ item ∈ corpus.items ++ corpus.list.items, item.ref < corpus.nextRef

variable {ops : List (Op P)}

lemma Inv.nodup_sig (h : Inv ops corpus) : (corpus.items.map Item.sig).Nodup := by
  have hkeys : corpus.items.map Item.sig = corpus.progsMap.keys := by
    rw [items, map_map]
    apply map_congr_left
    intro x hx
    exact h.keyed x.1 x.2 (AList.mem_lookup_iff.mpr hx)
  rw [hkeys]
  exact corpus.progsMap.keys_nodup

/-! ## Save -/

/-- One of the addresses is covered. -/
def Meets (cover coverPCs : List UInt64) : Prop := ∃ pc ∈ cover, pc ∈ coverPCs

/-- `Save` inserts an item with the signal and the coverage of the input and of the item it
replaces, and adds it to the list unless there was one. -/
lemma save_spec (env : Env P) (corpus : Corpus P) (inp : NewInput P) :
    let corpus' := corpus.save env inp
    ∃ item : Item P, item.ref = corpus.nextRef ∧ item.sig = env.sig inp.prog ∧
      corpus'.progsMap = corpus.progsMap.insert (env.sig inp.prog) item ∧
      corpus'.signal = corpus.signal.merge inp.signal ∧ corpus'.nextRef = corpus.nextRef + 1 ∧
      (∀ e prio, atLeast item.signal e prio = true ↔ atLeast inp.signal e prio = true ∨
        ∃ old ∈ corpus.progsMap.lookup (env.sig inp.prog), atLeast old.signal e prio = true) ∧
      (corpus'.list.items = if env.sig inp.prog ∈ corpus.progsMap then
        corpus.list.items else corpus.list.items ++ [item]) ∧
      (∀ coverPCs, Meets item.cover coverPCs ↔ Meets inp.cover coverPCs ∨
        ∃ old ∈ corpus.progsMap.lookup (env.sig inp.prog), Meets old.cover coverPCs) ∧
      item.areas = notedAreas corpus.focusAreas
        ((corpus.progsMap.lookup (env.sig inp.prog)).elim [] Item.areas) inp.cover ∧
      corpus'.focusAreas = applyFocusAreas corpus.focusAreas item inp.cover := by
  intro corpus'
  unfold corpus' save
  cases hold : corpus.progsMap.lookup (env.sig inp.prog) with
  | none =>
    refine ⟨_, rfl, rfl, rfl, rfl, rfl, fun e prio => ?_, ?_, fun coverPCs => ?_, rfl, rfl⟩
    · simp [withAreas, newItem]
    · rw [if_neg (AList.lookup_eq_none.mp hold)]
      rfl
    · simp [withAreas, newItem]
  | some old =>
    refine ⟨_, rfl, rfl, rfl, rfl, rfl, fun e prio => ?_, ?_, fun coverPCs => ?_, rfl, rfl⟩
    · rw [or_comm]
      simp [withAreas, mergedItem, Signal.merge, atLeast_merge]
    · rw [if_pos (mem_iff_exists_lookup.2 ⟨old, hold⟩)]
    · simp [withAreas, mergedItem, Meets, or_and_right, exists_or, or_comm]

/-- Saving an input keeps the invariant. -/
lemma Inv.save (h : Inv ops corpus) (inp : NewInput P) :
    Inv (ops ++ [.save inp]) (corpus.save env inp) := by
  obtain ⟨item, href, hsig, hmap, hsignal, hnext, hitem, hlist, -⟩ := save_spec env corpus inp
  have hlookup : ∀ sig, ∀ other ∈ (corpus.save env inp).progsMap.lookup sig,
      other = item ∧ sig = env.sig inp.prog ∨
        sig ≠ env.sig inp.prog ∧ other ∈ corpus.progsMap.lookup sig := by
    intro sig other hother
    rw [hmap, lookup_insert_eq] at hother
    split_ifs at hother with heq
    · exact .inl ⟨(Option.some.inj hother).symm, heq⟩
    · exact .inr ⟨heq, hother⟩
  have hnew : item ∈ (corpus.save env inp).items :=
    mem_items.2 ⟨env.sig inp.prog, by rw [hmap]; exact AList.lookup_insert _⟩
  constructor
  · intro sig other hother
    rcases hlookup sig other hother with ⟨rfl, rfl⟩ | ⟨-, hold⟩
    · exact hsig
    · exact h.keyed sig other hold
  · intro e prio
    rw [hsignal, Signal.merge, atLeast_merge, h.signal_items]
    constructor
    · rintro (⟨other, hother, hprio⟩ | hprio)
      · obtain ⟨sig, hother⟩ := mem_items.1 hother
        by_cases heq : sig = env.sig inp.prog
        · exact ⟨item, hnew, (hitem e prio).mpr (.inr ⟨other, heq ▸ hother, hprio⟩)⟩
        · refine ⟨other, mem_items.2 ⟨sig, ?_⟩, hprio⟩
          rw [hmap, AList.lookup_insert_ne heq]
          exact hother
      · exact ⟨item, hnew, (hitem e prio).mpr (.inl hprio)⟩
    · rintro ⟨other, hother, hprio⟩
      obtain ⟨sig, hother⟩ := mem_items.1 hother
      rcases hlookup sig other hother with ⟨rfl, -⟩ | ⟨-, hold⟩
      · refine ((hitem e prio).mp hprio).elim .inr fun ⟨old, hold, hprio⟩ => .inl ?_
        exact ⟨old, mem_items.2 ⟨_, hold⟩, hprio⟩
      · exact .inl ⟨other, mem_items.2 ⟨sig, hold⟩, hprio⟩
  · intro e prio
    rw [hsignal, Signal.merge, atLeast_merge, h.signal_inputs]
    simp only [mem_append, mem_singleton, Op.save.injEq, or_and_right, exists_or, exists_eq_left]
  · intro other hother
    rw [hnext]
    have hfresh : ∀ old ∈ corpus.items ++ corpus.list.items, old.ref < corpus.nextRef + 1 :=
      fun old hold => Nat.lt_succ_of_lt (h.fresh old hold)
    have hitemref : item.ref < corpus.nextRef + 1 := by omega
    rcases mem_append.mp hother with hother | hother
    · obtain ⟨sig, hother⟩ := mem_items.1 hother
      rcases hlookup sig other hother with ⟨rfl, -⟩ | ⟨-, hold⟩
      · exact hitemref
      · exact hfresh other (mem_append_left _ (mem_items.2 ⟨sig, hold⟩))
    · rw [hlist] at hother
      split_ifs at hother
      · exact hfresh other (mem_append_right _ hother)
      · rcases mem_append.mp hother with hother | hother
        · exact hfresh other (mem_append_right _ hother)
        · rw [mem_singleton.mp hother]
          exact hitemref

/-! ## Minimize -/

/-- Items that differ in their signatures are put into an empty corpus. -/
lemma foldl_keepItem (corpus : Corpus P) {items : List (Item P)} (hnodup : (items.map Item.sig).Nodup)
    (hnew : ∀ item ∈ items, item.sig ∉ corpus.progsMap) (hkeyed : corpus.Keyed) :
    let corpus' := items.foldl keepItem corpus
    corpus'.items.Perm (corpus.items ++ items) ∧
      corpus'.list.items = corpus.list.items ++ items ∧ corpus'.signal = corpus.signal ∧
      corpus'.nextRef = corpus.nextRef ∧ corpus'.Keyed := by
  induction items generalizing corpus with
  | nil => exact ⟨by simp, by simp, rfl, rfl, hkeyed⟩
  | cons item items ih =>
    obtain ⟨hhead, htail⟩ := nodup_cons.mp hnodup
    have hnot : item.sig ∉ corpus.progsMap := hnew item mem_cons_self
    have hrest : ∀ other ∈ items, other.sig ∉ (corpus.keepItem item).progsMap := by
      intro other hother hmem
      rcases (AList.mem_insert _).mp hmem with heq | hmem
      · exact hhead (heq ▸ mem_map_of_mem hother)
      · exact hnew other (mem_cons_of_mem _ hother) hmem
    have hkeyed' : (corpus.keepItem item).Keyed := by
      intro sig other hother
      change other ∈ (corpus.progsMap.insert item.sig item).lookup sig at hother
      rw [lookup_insert_eq] at hother
      split_ifs at hother with heq
      · cases hother
        exact heq.symm
      · exact hkeyed sig other hother
    obtain ⟨hperm, hlist, hsignal, hnext, hkeys⟩ := ih (corpus.keepItem item) htail hrest hkeyed'
    have hitems : (corpus.keepItem item).items = item :: corpus.items := by
      show (corpus.progsMap.insert item.sig item).entries.map Sigma.snd = _
      rw [AList.entries_insert_of_notMem hnot]
      rfl
    refine ⟨?_, ?_, hsignal, hnext, hkeys⟩
    · refine hperm.trans ?_
      rw [hitems]
      exact perm_middle.symm
    · rw [foldl_cons, hlist]
      show (corpus.list.items ++ [item]) ++ items = _
      rw [append_assoc, singleton_append]

/-- Each area is given the items that have it noted. -/
lemma foldl_keepItem_focusAreas (corpus : Corpus P) (items : List (Item P)) (i : ℕ) :
    (items.foldl keepItem corpus).focusAreas[i]?.map
        (fun area => (area.coverPCs, area.list.items)) =
      corpus.focusAreas[i]?.map fun area =>
        (area.coverPCs, area.list.items ++ items.filter (i ∈ ·.areas)) := by
  induction items generalizing corpus with
  | nil => simp
  | cons item items ih =>
    rw [foldl_cons, ih, keepItem, getElem?_map, getElem?_zipIdx, Option.map_map, Option.map_map]
    apply Option.map_congr
    by_cases hmem : i ∈ item.areas <;> simp [hmem, ProgramsList.saveProgram]

/-- What `Minimize` leaves: some of the items, in the map and in the list, with all of the signal. -/
lemma minimize_spec (env : Env P) (h : Inv ops corpus) (inputs : Shuffle (Item P))
    (kept : Shuffle ℕ) :
    let corpus' := corpus.minimize env inputs kept
    ∃ items : List (Item P), (∀ item ∈ items, item ∈ corpus.items) ∧
      (∀ e prio, (∃ item ∈ corpus.items, atLeast item.signal e prio = true) ↔
        ∃ item ∈ items, atLeast item.signal e prio = true) ∧
      corpus'.items.Perm items ∧ corpus'.list.items = items ∧ corpus'.signal = corpus.signal ∧
      corpus'.nextRef = corpus.nextRef ∧ corpus'.Keyed ∧
      ∀ i : ℕ, corpus'.focusAreas[i]?.map (fun area => (area.coverPCs, area.list.items)) =
        corpus.focusAreas[i]?.map fun area => (area.coverPCs, items.filter (i ∈ ·.areas)) := by
  let contexts := sliceStable (inputLess env)
    ((inputs.order corpus.items).map fun inp => (⟨inp.signal, inp⟩ : Signal.Context (Item P)))
  have hperm : (contexts.map Signal.Context.context).Perm corpus.items := by
    refine ((sliceStable_perm _ _).map _).trans ?_
    rw [map_map]
    exact (map_id (inputs.order corpus.items)).symm ▸ inputs.perm corpus.items
  have hsig : ∀ c ∈ contexts, c.signal = c.context.signal := by
    intro c hc
    rw [mem_sliceStable, mem_map] at hc
    obtain ⟨inp, -, rfl⟩ := hc
    rfl
  have hnodup : ((Signal.minimize kept contexts).map Item.sig).Nodup := by
    apply Signal.nodup_minimize
    have hmap := (hperm.map Item.sig).nodup_iff.mpr h.nodup_sig
    rwa [map_map] at hmap
  obtain ⟨hitems, hlist, hsignal, hnext, hkeyed⟩ := foldl_keepItem
    { corpus with
      progsMap := ∅
      list := .empty
      focusAreas := corpus.focusAreas.map fun area => { area with list := .empty } }
    hnodup (fun _ _ => AList.notMem_empty _) (fun sig item hitem => by cases hitem)
  refine ⟨Signal.minimize kept contexts, fun item hitem => ?_, fun e prio => ?_, hitems, hlist,
    hsignal, hnext, hkeyed, fun i => ?_⟩
  · obtain ⟨i, -, c, hc, rfl⟩ := Signal.mem_minimize.1 hitem
    exact hperm.mem_iff.mp (mem_map_of_mem (mem_of_getElem? hc))
  · have hall : (∃ item ∈ corpus.items, atLeast item.signal e prio = true) ↔
        ∃ c ∈ contexts, atLeast c.signal e prio = true := by
      constructor
      · rintro ⟨item, hitem, hprio⟩
        obtain ⟨c, hc, rfl⟩ := mem_map.mp (hperm.mem_iff.mpr hitem)
        exact ⟨c, hc, hsig c hc ▸ hprio⟩
      · rintro ⟨c, hc, hprio⟩
        exact ⟨c.context, hperm.mem_iff.mp (mem_map_of_mem hc), hsig c hc ▸ hprio⟩
    rw [hall, Signal.atLeast_indices]
    constructor
    · rintro ⟨i, hi, c, hc, hprio⟩
      exact ⟨c.context, Signal.mem_minimize.2 ⟨i, hi, c, hc, rfl⟩,
        hsig c (mem_of_getElem? hc) ▸ hprio⟩
    · rintro ⟨item, hitem, hprio⟩
      obtain ⟨i, hi, c, hc, rfl⟩ := Signal.mem_minimize.1 hitem
      exact ⟨i, hi, c, hc, (hsig c (mem_of_getElem? hc)).symm ▸ hprio⟩
  · refine (foldl_keepItem_focusAreas _ _ i).trans ?_
    rw [getElem?_map, Option.map_map]
    rfl

/-- Minimizing the corpus keeps the invariant. -/
lemma Inv.minimize (h : Inv ops corpus) (inputs : Shuffle (Item P)) (kept : Shuffle ℕ) :
    Inv (ops ++ [.minimize inputs kept]) (corpus.minimize env inputs kept) := by
  obtain ⟨items, hsub, hsignals, hitems, hlist, hsignal, hnext, hkeyed, -⟩ :=
    minimize_spec env h inputs kept
  constructor
  · exact hkeyed
  · intro e prio
    rw [hsignal, h.signal_items, hsignals]
    exact exists_congr fun item => and_congr_left' hitems.mem_iff.symm
  · intro e prio
    rw [hsignal, h.signal_inputs]
    simp
  · intro item hitem
    rw [hlist] at hitem
    have hmem : item ∈ items := (mem_append.mp hitem).elim hitems.mem_iff.mp id
    rw [hnext]
    exact h.fresh item (mem_append_left _ (hsub item hmem))

/-! ## Runs -/

lemma run_append (areas : List (List UInt64)) (ops : List (Op P)) (op : Op P) :
    run env areas (ops ++ [op]) = (run env areas ops).step env op := by
  rw [run, foldl_append]
  rfl

/-- The invariant holds after every run. -/
lemma inv_run (env : Env P) (areas : List (List UInt64)) (ops : List (Op P)) :
    Inv ops (run env areas ops) := by
  induction ops using reverseRecOn with
  | nil =>
    constructor
    · intro sig item hitem
      cases hitem
    · simp [run, newFocusedCorpus, items]
    · simp [run, newFocusedCorpus]
    · intro item hitem
      cases hitem
  | append_singleton ops op ih =>
    rw [run_append]
    cases op with
    | save inp => exact ih.save inp
    | minimize inputs kept => exact ih.minimize inputs kept

/-- The corpus after the operations: no signal is lost, items are under their signatures, and the
list has the items of the map. -/
structure Exact (ops : List (Op P)) (corpus : Corpus P) : Prop where
  items : ∀ e prio, prio ∈ corpus.signal.lookup e ↔
    IsGreatest {q | ∃ sig, ∃ item ∈ corpus.progsMap.lookup sig, q ∈ item.signal.lookup e} prio
  inputs : ∀ e prio, prio ∈ corpus.signal.lookup e ↔
    IsGreatest {q | ∃ inp, .save inp ∈ ops ∧ q ∈ inp.signal.lookup e} prio
  keyed : ∀ sig, ∀ item ∈ corpus.progsMap.lookup sig, item.sig = sig
  listed : corpus.list.items.Perm (corpus.progsMap.entries.map Sigma.snd)

/-- The list is exact if it has the items of the map, each once. -/
lemma Inv.exact_iff (h : Inv ops corpus) :
    Exact ops corpus ↔ corpus.list.items.Perm corpus.items := by
  refine ⟨Exact.listed, fun hlist => ⟨fun e prio => ?_, fun e prio => ?_, h.keyed, hlist⟩⟩
  · rw [mem_lookup_iff_of_join (F := fun s => ∃ item ∈ corpus.items, item.signal = s)]
    · simp only [mem_items]
      congr! 4 with q
      constructor
      · rintro ⟨_, ⟨item, ⟨sig, hitem⟩, rfl⟩, hq⟩
        exact ⟨sig, item, hitem, hq⟩
      · rintro ⟨sig, item, hitem, hq⟩
        exact ⟨_, ⟨item, ⟨sig, hitem⟩, rfl⟩, hq⟩
    · intro q
      rw [h.signal_items]
      simp
  · rw [mem_lookup_iff_of_join (F := fun s => ∃ inp, .save inp ∈ ops ∧ inp.signal = s)]
    · simp
    · intro q
      rw [h.signal_inputs]
      simp

/-- In every run, the corpus is exact after each operation if and only if no program is saved that
is in the map at that time. -/
theorem corpus_exact_iff (env : Env P) (areas : List (List UInt64)) (ops : List (Op P)) :
    (∀ done, done <+: ops → Exact done (run env areas done)) ↔
      ∀ done inp, done ++ [.save inp] <+: ops →
        env.sig inp.prog ∉ (run env areas done).progsMap := by
  simp only [(inv_run env areas _).exact_iff]
  constructor
  · intro h done inp hdone hmem
    have hlist := h _ hdone
    obtain ⟨item, href, -, hmap, -, -, -, hitems, -⟩ := save_spec env (run env areas done) inp
    rw [run_append] at hlist
    change ((run env areas done).save env inp).list.items.Perm
      ((run env areas done).save env inp).items at hlist
    rw [hitems, if_pos hmem] at hlist
    -- the item that replaces the old one is not in the list
    have hnew : item ∈ ((run env areas done).save env inp).items :=
      mem_items.2 ⟨env.sig inp.prog, by rw [hmap]; exact AList.lookup_insert _⟩
    have hlt := (inv_run env areas done).fresh item (mem_append_right _ (hlist.mem_iff.mpr hnew))
    omega
  · intro h done hdone
    induction done using reverseRecOn with
    | nil => exact Perm.nil
    | append_singleton done op ih =>
      have hbefore := ih ((prefix_append _ _).trans hdone)
      rw [run_append]
      cases op with
      | save inp =>
        obtain ⟨item, -, -, hmap, -, -, -, hitems, -⟩ := save_spec env (run env areas done) inp
        have hnot := h done inp hdone
        show ((run env areas done).save env inp).list.items.Perm
          (((run env areas done).save env inp).progsMap.entries.map Sigma.snd)
        rw [hitems, if_neg hnot, hmap, AList.entries_insert_of_notMem hnot]
        exact (perm_append_singleton _ _).trans (hbefore.cons item)
      | minimize inputs kept =>
        obtain ⟨items, -, -, hperm, hlist, -⟩ :=
          minimize_spec env (inv_run env areas done) inputs kept
        show ((run env areas done).minimize env inputs kept).list.items.Perm _
        rw [hlist]
        exact hperm.symm

/-- All programs are the same. -/
def unitEnv : Env Unit := ⟨fun _ => "sig0", fun _ => false, fun _ => 1⟩

def unitInput : NewInput Unit := ⟨(), 0, Signal.fromRaw [1] 3, [], []⟩

/-- A program is saved twice: the list still has its first item, which the map has no more. -/
theorem saved_twice_is_listed_stale :
    ∃ done, done <+: [.save unitInput, .save unitInput] ∧
      ¬ Exact done (run unitEnv [] done) := by
  refine ⟨_, prefix_rfl, fun h => ?_⟩
  exact absurd (h.listed.map Item.ref) (by decide)

end KConfuzz.Corpus
