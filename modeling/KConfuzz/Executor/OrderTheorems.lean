import KConfuzz.Executor.WalkTheorems

/-!
# What the bytes of a program depend on

The config actions of a program come in some order, and so do the checksum fields of a call, which
the serializer finds in a map. The bytes of a buffer determine its instructions
(`map_received_eq_of_encodeAll`), so they are the same for all orders exactly when actions that tie
in the sort have the same flags, and checksum fields of one address are written the same
(`serializeForExecWithKConfuzz_perm_iff`).
-/

namespace KConfuzz

open Lib.ExceptFold Lib.StableSort Executor List

/-! ## Bytes determine instructions -/

/-- Two encodings with the same bytes are fetched as the same instructions. -/
lemma map_received_eq_of_encodeAll {target : Target} {l l' : List Instr}
    (h : ReadableAll target l) (h' : ReadableAll target l') (heq : encodeAll l = encodeAll l') :
    l.map received = l'.map received := by
  have hne : ∀ {instr : Instr} {l : List Instr}, encodeAll (instr :: l) ≠ [] := by
    intro instr l hnil
    rw [encodeAll_cons, append_eq_nil_iff] at hnil
    exact absurd (congrArg length hnil.1) (Instr.encode_length_pos instr).ne'
  induction l generalizing l' with
  | nil =>
    cases l' with
    | nil => rfl
    | cons instr' l' => exact absurd heq.symm hne
  | cons instr l ih =>
    cases l' with
    | nil => exact absurd heq hne
    | cons instr' l' =>
      have hfetch := fetchInstr_encodeAll h
      rw [heq, fetchInstr_encodeAll h'] at hfetch
      simp only [Except.ok.injEq, Prod.mk.injEq, and_true] at hfetch
      rw [map_cons, map_cons, ih h.tail h'.tail hfetch.2.symm, hfetch.1]

def Instr.copyin? : Instr → Option CopyinInstr
  | .copyin i => some i
  | _ => none

def Instr.config? : Instr → Option ConfigInstr
  | .kconfuzzConfig i => some i
  | _ => none

/-- The config instruction of an action. -/
def KConfuzzConfigAction.instr (a : KConfuzzConfigAction) : ConfigInstr :=
  { paramID := a.paramID, valueID := a.valueID, flags := a.flags }

/-- The actions in a buffer, in their order. -/
lemma filterMap_config?_interleave (actions : List KConfuzzConfigAction) (i : ℕ)
    (es : List EncodedCall) :
    (interleave actions i es).filterMap Instr.config? =
      (List.range' i (es.length + 1)).flatMap fun j =>
        (actionsByCall actions j).map KConfuzzConfigAction.instr := by
  have hconfig : ∀ j, (writeKConfuzzConfigActions (actionsByCall actions j)).filterMap
      Instr.config? = (actionsByCall actions j).map KConfuzzConfigAction.instr := by
    intro j
    rw [writeKConfuzzConfigActions, filterMap_map]
    exact congrFun filterMap_eq_map _
  induction es generalizing i with
  | nil => simp [interleave, hconfig]
  | cons e es ih =>
    have hnone : e.instrs.filterMap Instr.config? = [] := by
      simp [EncodedCall.instrs, filterMap_map, Function.comp_def, Instr.config?]
    rw [interleave, filterMap_append, filterMap_append, hconfig, hnone, ih, append_nil]
    rfl

lemma filterMap_copyin?_interleave (actions : List KConfuzzConfigAction) (i : ℕ)
    (es : List EncodedCall) :
    (interleave actions i es).filterMap Instr.copyin? = es.flatMap (·.copyin) := by
  have hnone : ∀ l, (writeKConfuzzConfigActions l).filterMap Instr.copyin? = [] := by
    simp [writeKConfuzzConfigActions, filterMap_map, Function.comp_def, Instr.copyin?]
  induction es generalizing i with
  | nil => exact hnone _
  | cons e es ih =>
    have hcopyin : e.instrs.filterMap Instr.copyin? = e.copyin := by
      simp [EncodedCall.instrs, filterMap_map, Function.comp_def, Instr.copyin?]
    rw [interleave, filterMap_append, filterMap_append, hnone, hcopyin, ih, flatMap_cons, nil_append]

section Buffer

variable {target : Target} {es es' : List EncodedCall} {actions actions' : List KConfuzzConfigAction}
  (hreadable : ∀ e ∈ es, e.Readable target) (hreadable' : ∀ e ∈ es', e.Readable target)
  (hfits : (encodeBuffer actions es).length < 2 ^ 63) (hlen : es.length = es'.length)
  (heq : encodeBuffer actions es = encodeBuffer actions' es')

include hreadable hreadable' hfits hlen heq

lemma map_received_interleave_eq :
    (interleave actions 0 es).map received = (interleave actions' 0 es').map received := by
  have hread := readableAll_interleave hreadable actions hfits
  have hread' := readableAll_interleave hreadable' actions' (heq ▸ hfits)
  rw [encodeBuffer, encodeBuffer, wordLength, wordLength, hlen, append_cancel_left_eq] at heq
  have hall := map_received_eq_of_encodeAll hread hread' heq
  rwa [map_append, map_append, append_cancel_right_eq] at hall

/-- The copyins of a buffer. -/
lemma flatMap_copyin_eq : es.flatMap (·.copyin) = es'.flatMap (·.copyin) := by
  have hreceived : ∀ instr, (received instr).copyin? = instr.copyin? := by
    rintro (_ | _ | _ | _ | _ | _) <;> rfl
  have hall := congrArg (filterMap Instr.copyin?)
    (map_received_interleave_eq hreadable hreadable' hfits hlen heq)
  simpa only [filterMap_map, Function.comp_def, hreceived, filterMap_copyin?_interleave] using hall

/-- The config instructions of a buffer. -/
lemma flatMap_config_eq :
    ((List.range' 0 (es.length + 1)).flatMap fun j =>
      (actionsByCall actions j).map KConfuzzConfigAction.instr) =
    (List.range' 0 (es.length + 1)).flatMap fun j =>
      (actionsByCall actions' j).map KConfuzzConfigAction.instr := by
  have hreceived : ∀ instr, (received instr).config? = instr.config? := by
    rintro (_ | _ | _ | _ | _ | _) <;> rfl
  have hall := congrArg (filterMap Instr.config?)
    (map_received_interleave_eq hreadable hreadable' hfits hlen heq)
  simpa only [filterMap_map, Function.comp_def, hreceived, filterMap_config?_interleave, hlen]
    using hall

end Buffer

/-- Parts of the same lengths that make up the same list are the same. -/
lemma eq_of_flatMap_eq {α β : Type} {f g : α → List β} {l : List α}
    (hlen : ∀ x ∈ l, (f x).length = (g x).length) (h : l.flatMap f = l.flatMap g) :
    ∀ x ∈ l, f x = g x := by
  induction l with
  | nil => simp
  | cons x l ih =>
    rw [forall_mem_cons] at hlen ⊢
    rw [flatMap_cons, flatMap_cons] at h
    obtain ⟨hx, hl⟩ := append_inj h hlen.1
    exact ⟨hx, ih hlen.2 hl⟩

/-! ## The order of the actions -/

/-- Actions that write one value of a parameter before one call have the same flags. -/
def FlagsAgree (actions : List KConfuzzConfigAction) : Prop :=
  ∀ a ∈ actions, ∀ b ∈ actions, a.beforeCall = b.beforeCall → a.paramID = b.paramID →
    a.valueID = b.valueID → a.flags = b.flags

lemma writeKConfuzzConfigActions_perm {actions actions' : List KConfuzzConfigAction}
    (hperm : actions.Perm actions') (hflags : FlagsAgree actions) (i : ℕ) :
    writeKConfuzzConfigActions (actionsByCall actions i) =
      writeKConfuzzConfigActions (actionsByCall actions' i) := by
  refine callActionLess_compares.map_sliceStable_eq (hperm.filter _) fun a ha b hb hkey => ?_
  rw [mem_filter, decide_eq_true_eq] at ha hb
  simp only [toLex_inj, Prod.mk.injEq, UInt64.toNat_inj] at hkey
  rw [hkey.1, hkey.2, hflags a ha.1 b hb.1 (ha.2.trans hb.2.symm) hkey.1 hkey.2]

/-- In one order of the checksum fields, the order of the actions does not matter as long as their
flags agree. -/
lemma serializeForExecWithKConfuzz_perm (env : ExecEnv) {p : Prog}
    {actions actions' : List KConfuzzConfigAction} (hperm : actions.Perm actions')
    (hrange : ∀ a ∈ actions, a.inRange (some p)) (hflags : FlagsAgree actions) :
    p.serializeForExecWithKConfuzz env actions = p.serializeForExecWithKConfuzz env actions' := by
  have hcalls : ∀ i w calls, serializeCalls env p.target actions i w calls =
      serializeCalls env p.target actions' i w calls := by
    intro i w calls
    induction calls generalizing i w with
    | nil => rw [serializeCalls, serializeCalls, writeKConfuzzConfigActions_perm hperm hflags]
    | cons c calls ih =>
      simp only [serializeCalls, writeKConfuzzConfigActions_perm hperm hflags i, ih]
  unfold Prog.serializeForExecWithKConfuzz
  rw [find?_badCallIndex hrange, find?_badCallIndex fun a ha => hrange a (hperm.mem_iff.mpr ha),
    hcalls]

/-- Actions that tie in the sort are written in the order in which they come. -/
lemma flags_eq_of_swap {a b : KConfuzzConfigAction} {rest : List KConfuzzConfigAction} {i : ℕ}
    (hi : a.beforeCall = i) (hcall : a.beforeCall = b.beforeCall) (hparam : a.paramID = b.paramID)
    (hvalue : a.valueID = b.valueID)
    (h : (actionsByCall (a :: b :: rest) i).map KConfuzzConfigAction.instr =
      (actionsByCall (b :: a :: rest) i).map KConfuzzConfigAction.instr) :
    a.flags = b.flags := by
  let isKey : ConfigInstr → Bool := fun c =>
    toLex (c.paramID.toNat, c.valueID.toNat) = toLex (a.paramID.toNat, a.valueID.toNat)
  have hkey : ∀ l : List KConfuzzConfigAction,
      (sliceStable callActionLess l).filter (isKey ∘ KConfuzzConfigAction.instr) =
        l.filter (isKey ∘ KConfuzzConfigAction.instr) :=
    fun l => callActionLess_compares.filter_key_sliceStable l _
  have hfilter := congrArg (filter isKey) h
  rw [filter_map, filter_map, actionsByCall, actionsByCall, hkey, hkey] at hfilter
  -- of the actions with this key, `a` is the first on one side and `b` on the other
  have ha : (isKey ∘ KConfuzzConfigAction.instr) a = true := by
    simp [isKey, KConfuzzConfigAction.instr]
  have hb : (isKey ∘ KConfuzzConfigAction.instr) b = true := by
    simp [isKey, KConfuzzConfigAction.instr, hparam, hvalue]
  simp only [filter_cons, hi, hcall ▸ hi, decide_true, if_true, ha, hb, map_cons] at hfilter
  exact congrArg ConfigInstr.flags (List.cons.inj hfilter).1

/-! ## Both orders -/

/-- The bytes of the program with the actions are the same in whatever order the actions come and
the checksum fields are visited. -/
def IgnoresOrder (p : Prog) (actions : List KConfuzzConfigAction) : Prop :=
  ∀ env env' actions', actions.Perm actions' →
    p.serializeForExecWithKConfuzz env actions = p.serializeForExecWithKConfuzz env' actions'

section Program

variable {p : Prog} (hvalid : ValidOrder (p.calls.flatMap Call.nodes)) {ks : List CallSkeleton}
  {w : ExecContext} (hks : skeletons p.target .init p.calls = .ok (ks, w))
  {actions : List KConfuzzConfigAction} (hrange : ∀ a ∈ actions, a.inRange (some p)) {env : ExecEnv}
  (hfits : (encodeBuffer actions (ks.map (·.fill env))).length < 2 ^ 63)

include hvalid hks hrange hfits

/-- If no order of the actions changes the buffer, flags agree. -/
lemma flagsAgree_of_encodeBuffer_eq
    (h : ∀ actions', actions.Perm actions' → encodeBuffer actions (ks.map (·.fill env)) =
      encodeBuffer actions' (ks.map (·.fill env))) :
    FlagsAgree actions := by
  intro a ha b hb hcall hparam hvalue
  by_cases hab : a = b
  · rw [hab]
  · -- two arrangements that differ in the order of `a` and `b`
    have hmem : b ∈ actions.erase a := (mem_erase_of_ne (Ne.symm hab)).mpr hb
    have hperm : actions.Perm (a :: b :: (actions.erase a).erase b) :=
      (perm_cons_erase ha).trans ((perm_cons_erase hmem).cons a)
    have hswap := hperm.trans (Perm.swap b a _)
    have hreadable := readable_fill hvalid hks env
    have hconfig := flatMap_config_eq hreadable hreadable (h _ hperm ▸ hfits) rfl
      ((h _ hperm).symm.trans (h _ hswap))
    obtain ⟨hzero, hle⟩ := KConfuzzConfigAction.inRange_some_iff.1 (hrange a ha)
    have hlen : (ks.map (·.fill env)).length = p.calls.length := by
      rw [length_map, length_of_mapAccumM hks]
    refine flags_eq_of_swap (Int.toNat_of_nonneg hzero).symm hcall hparam hvalue
      (eq_of_flatMap_eq (fun j _ => ?_) hconfig a.beforeCall.toNat ?_)
    · rw [length_map, length_map]
      exact (((sliceStable_perm _ _).trans ((Perm.swap b a _).filter _)).trans
        (sliceStable_perm _ _).symm).length_eq
    · rw [mem_range'_1, hlen]
      omega

omit hrange in
/-- If no order of the checksums changes the buffer, they agree. -/
lemma checksumsAgree_of_encodeBuffer_eq
    (h : ∀ env', encodeBuffer actions (ks.map (·.fill env)) =
      encodeBuffer actions (ks.map (·.fill env'))) :
    p.ChecksumsAgree := by
  rw [← agree_iff_checksumsAgree hvalid hks]
  intro k hk
  have hsums : ∀ env', writeChecksums env k.sums k.addr = writeChecksums env' k.sums k.addr := by
    intro env'
    have hcopyin := flatMap_copyin_eq (readable_fill hvalid hks env) (readable_fill hvalid hks env')
      hfits (by rw [length_map, length_map]) (h env')
    rw [flatMap_map, flatMap_map] at hcopyin
    have hlen : ∀ k ∈ ks, (k.fill env).copyin.length = (k.fill env').copyin.length := fun k _ => by
      simp only [CallSkeleton.fill, length_append, (writeChecksums_perm env env' k.sums k.addr).length_eq]
    exact append_cancel_left (eq_of_flatMap_eq hlen hcopyin k hk)
  exact agree_of_writeChecksums_eq fun env₁ env₂ => (hsums env₁).symm.trans (hsums env₂)

end Program

/-- The order of the actions does not matter for any program as long as actions that tie in the
sort, by call, parameter and value, have the same flags. For a valid program that has a buffer this
is exact: its bytes depend on no order, of the actions or of checksum fields, exactly when flags
agree and checksum fields of one address are written the same. -/
theorem serializeForExecWithKConfuzz_perm_iff {p : Prog} {actions : List KConfuzzConfigAction}
    (hrange : ∀ a ∈ actions, a.inRange (some p)) :
    (FlagsAgree actions → ∀ env actions', actions.Perm actions' →
      p.serializeForExecWithKConfuzz env actions = p.serializeForExecWithKConfuzz env actions') ∧
    (p.validate = .ok () → (∀ c ∈ p.calls, c.callMeta.kfuzzTest = false) →
      (∃ env buf, p.serializeForExecWithKConfuzz env actions = .ok buf) →
      (IgnoresOrder p actions ↔ FlagsAgree actions ∧ p.ChecksumsAgree)) := by
  refine ⟨fun hflags env actions' hperm =>
    serializeForExecWithKConfuzz_perm env hperm hrange hflags, ?_⟩
  rintro hvalid hkfuzz ⟨env, buf, hbuf⟩
  have horder := validOrder_of_validate hvalid
  obtain ⟨ks, w, hks, hsize, hmax, rfl⟩ :=
    (serializeForExecWithKConfuzz_eq_ok_iff hkfuzz hrange).mp hbuf
  have hfits := hsize.trans_lt (show execBufferSize < 2 ^ 63 by decide)
  constructor
  · intro h
    have hsame : ∀ env' actions', actions.Perm actions' →
        encodeBuffer actions (ks.map (·.fill env)) =
          encodeBuffer actions' (ks.map (·.fill env')) := by
      intro env' actions' hperm
      have hbuf' := (h env env' actions' hperm).symm.trans hbuf
      obtain ⟨ks', w', hks', -, -, heq⟩ := (serializeForExecWithKConfuzz_eq_ok_iff hkfuzz
        fun a ha => hrange a (hperm.mem_iff.mpr ha)).mp hbuf'
      rw [hks] at hks'
      cases hks'
      exact heq
    exact ⟨flagsAgree_of_encodeBuffer_eq horder hks hrange hfits (hsame env),
      checksumsAgree_of_encodeBuffer_eq horder hks hfits fun env' => hsame env' _ (.refl _)⟩
  · rintro ⟨hflags, hsums⟩ env₁ env₂ actions' hperm
    have hserialize := serializeForExecWithKConfuzz_fill hkfuzz hrange hks hmax hsize
    have hfill : ks.map (·.fill env₁) = ks.map (·.fill env₂) := by
      refine map_congr_left fun k hk => ?_
      rw [CallSkeleton.fill, CallSkeleton.fill, writeChecksums_eq_of_agree
        ((agree_iff_checksumsAgree horder hks).mpr hsums k hk) env₁ env₂]
    rw [← serializeForExecWithKConfuzz_perm env₂ hperm hrange hflags, hserialize, hserialize, hfill]

theorem ignoresOrder_readProg :
    IgnoresOrder readProg [⟨0, 2, 1, 0⟩, ⟨1, 1, 1, 1⟩, ⟨0, 1, 1, 1⟩] :=
  ((serializeForExecWithKConfuzz_perm_iff (by decide)).2 (by decide +kernel) (by decide)
    ⟨visitInOrder, _, rfl⟩).mpr ⟨by unfold FlagsAgree; decide, checksumsAgree_readProg⟩

/-- Two actions that write the same value, with and without restoring it. -/
theorem serializeForExecWithKConfuzz_swap_ne :
    readProg.serializeForExecWithKConfuzz visitInOrder [⟨0, 1, 1, 0⟩, ⟨0, 1, 1, 1⟩] ≠
      readProg.serializeForExecWithKConfuzz visitInOrder [⟨0, 1, 1, 1⟩, ⟨0, 1, 1, 0⟩] := by
  intro h
  exact absurd (congrArg Except.toOption h) (by decide +kernel)

end KConfuzz
