import Mathlib.Data.List.Forall2
import Mathlib.Data.List.Induction

/-!
# Computations that may fail

Taking apart a computation in `Except` that succeeded: a bind into its two halves, and a
monadic fold by an invariant of the elements done so far. `emitAll` is the loop that appends to
an output while it updates a state, and `mapAccumM` the one with one output per element.
`FailsOnly P` says what the errors of a computation can be.
-/

namespace Lib.ExceptFold

open List

universe u v w

variable {ε : Type u} {α β : Type v} {f : α → Except ε β} {b : β} {x : Except ε α}

lemma bind_eq_ok_iff : x >>= f = .ok b ↔ ∃ a, x = .ok a ∧ f a = .ok b := by
  cases x with
  | error err =>
    constructor
    · intro h
      cases h
    · rintro ⟨a, ha, -⟩
      cases ha
  | ok a =>
    constructor
    · intro h
      exact ⟨a, rfl, h⟩
    · rintro ⟨a', ha, h⟩
      cases ha
      exact h

/-- The rule for a bind: what the first half returns is enough for the second one. -/
lemma exists_bind_eq_ok {P : α → Prop} {Q : β → Prop} (hx : ∃ a, x = .ok a ∧ P a)
    (hf : ∀ a, P a → ∃ b, f a = .ok b ∧ Q b) : ∃ b, x >>= f = .ok b ∧ Q b := by
  obtain ⟨a, rfl, ha⟩ := hx
  exact hf a ha

/-! ## Lists, and lists that are related one for one -/

lemma exists_split {l : List α} {i : Nat} (hi : i < l.length) :
    ∃ pre a post, l = pre ++ a :: post ∧ pre.length = i := by
  refine ⟨l.take i, l[i], l.drop (i + 1), ?_, length_take_of_le (Nat.le_of_lt hi)⟩
  rw [getElem_cons_drop, take_append_drop]

section Forall₂

variable {δ ζ : Type w} {R : δ → ζ → Prop} {l : List δ} {l' : List ζ} (h : List.Forall₂ R l l')
include h

lemma exists_mem_of_forall₂ {b : ζ} (hb : b ∈ l') : ∃ a ∈ l, R a b := by
  induction h with
  | nil => cases hb
  | @cons a b' l l' hR _ ih =>
    rcases mem_cons.mp hb with rfl | hb
    · exact ⟨a, by simp, hR⟩
    · obtain ⟨a', ha', hR'⟩ := ih hb
      exact ⟨a', by simp [ha'], hR'⟩

lemma forall_mem_iff_of_forall₂ {P : δ → Prop} {Q : ζ → Prop} (hR : ∀ a b, R a b → (Q b ↔ P a)) :
    (∀ b ∈ l', Q b) ↔ ∀ a ∈ l, P a := by
  induction h with
  | nil => simp
  | cons hhead htail ih => rw [forall_mem_cons, forall_mem_cons, hR _ _ hhead, ih]

lemma filterMap_of_forall₂ {η : Type*} {g : δ → Option η} {g' : ζ → Option η}
    (hR : ∀ a b, R a b → g' b = g a) : l'.filterMap g' = l.filterMap g := by
  induction h with
  | nil => rfl
  | cons hhead htail ih => rw [filterMap_cons, filterMap_cons, hR _ _ hhead, ih]

end Forall₂

/-! ## Success -/

variable {c : Prop} {a : α}

lemma map_eq_ok_iff {f : α → β} : x.map f = .ok b ↔ ∃ a, x = .ok a ∧ f a = b := by
  cases x <;> simp [Except.map]

lemma toOption_eq_some_iff : x.toOption = some a ↔ x = .ok a := by
  cases x <;> simp [Except.toOption]

lemma ok_eq_ok_iff (hc : c) {b : α} : (.ok a : Except ε α) = .ok b ↔ c ∧ b = a := by
  rw [Except.ok.injEq, eq_comm]
  exact (and_iff_right hc).symm

/-- A computation with one possible result, followed by a function of it. -/
lemma bind_pure_eq_ok_iff (h : ∀ s, x = .ok s ↔ c ∧ s = a) (f : α → β) :
    (x >>= fun s => pure (f s)) = .ok b ↔ c ∧ b = f a := by
  rw [bind_eq_ok_iff]
  constructor
  · rintro ⟨s, hx, hb⟩
    obtain ⟨hc, rfl⟩ := (h s).mp hx
    exact ⟨hc, (Except.ok.inj hb).symm⟩
  · rintro ⟨hc, rfl⟩
    exact ⟨a, (h a).mpr ⟨hc, rfl⟩, rfl⟩

variable {σ : Type v} {err : ε} {s : σ}

lemma stateT_bind_eq_ok_iff {x : StateT σ (Except ε) α} {f : α → StateT σ (Except ε) β} {b : β × σ} :
    (x >>= f) s = .ok b ↔ ∃ a s', x s = .ok (a, s') ∧ f a s' = .ok b := by
  show x s >>= (fun p => f p.1 p.2) = .ok b ↔ _
  rw [bind_eq_ok_iff, Prod.exists]

/-- A check that fails when `c` holds. -/
def failIf (c : Prop) [Decidable c] (err : ε) : Except ε Unit :=
  if c then .error err else .ok ()

lemma failIf_eq_ok_iff [Decidable c] {u : Unit} : failIf c err = .ok u ↔ ¬ c := by
  unfold failIf
  split
  · rename_i hc
    exact iff_of_false (fun h => by cases h) (fun h => h hc)
  · rename_i hc
    exact iff_of_true rfl hc

lemma forM_eq_ok_iff {δ : Type w} {f : δ → Except ε PUnit} {l : List δ} :
    l.forM f = .ok ⟨⟩ ↔ ∀ a ∈ l, f a = .ok ⟨⟩ := by
  induction l with
  | nil => exact iff_of_true rfl (by simp)
  | cons a l ih =>
    rw [forall_mem_cons, ← ih]
    show f a >>= (fun _ => l.forM f) = .ok ⟨⟩ ↔ _
    rw [bind_eq_ok_iff]
    constructor
    · rintro ⟨u, hfirst, hrest⟩
      exact ⟨hfirst, hrest⟩
    · rintro ⟨hfirst, hrest⟩
      exact ⟨⟨⟩, hfirst, hrest⟩

variable {l : List α}

lemma mapM_cons_eq_ok_iff {out : List β} :
    (a :: l).mapM f = .ok out ↔
      ∃ first rest, f a = .ok first ∧ l.mapM f = .ok rest ∧ out = first :: rest := by
  simp only [mapM_cons, bind_eq_ok_iff, pure, Except.pure, Except.ok.injEq, eq_comm (a := out),
    exists_and_left]

lemma forall₂_of_mapM {out : List β} (h : l.mapM f = .ok out) :
    List.Forall₂ (fun a b => f a = .ok b) l out := by
  induction l generalizing out with
  | nil =>
    cases h
    exact .nil
  | cons a l ih =>
    obtain ⟨first, rest, hfirst, hrest, rfl⟩ := mapM_cons_eq_ok_iff.1 h
    exact .cons hfirst (ih hrest)

lemma forall_mem_of_mapM {P : β → Prop} (hf : ∀ a ∈ l, ∀ b, f a = .ok b → P b) {out : List β}
    (h : l.mapM f = .ok out) :
    ∀ b ∈ out, P b := by
  intro b hb
  obtain ⟨a, ha, hab⟩ := exists_mem_of_forall₂ (forall₂_of_mapM h) hb
  exact hf a ha b hab

lemma getElem?_of_mapM {l' : List β} (h : l.mapM f = .ok l') {i : Nat} (hi : l[i]? = some a) :
    ∃ b, f a = .ok b ∧ l'[i]? = some b := by
  induction l generalizing l' i with
  | nil => simp at hi
  | cons first l ih =>
    obtain ⟨b, bs, hb, hbs, rfl⟩ := mapM_cons_eq_ok_iff.1 h
    cases i with
    | zero =>
      cases hi
      exact ⟨b, hb, rfl⟩
    | succ i => exact ih hbs hi

/-- The invariant rule for a fold: `I done b` relates the elements done to the accumulator. -/
lemma foldlM_invariant {f : β → α → Except ε β} (I : List α → β → Prop)
    (step : ∀ done a b b', I done b → f b a = .ok b' → I (done ++ [a]) b') {b' : β} (hb : I [] b)
    (h : l.foldlM f b = .ok b') : I l b' := by
  induction l using reverseRecOn generalizing b' with
  | nil =>
    cases h
    exact hb
  | append_singleton l a ih =>
    rw [foldlM_append, bind_eq_ok_iff] at h
    obtain ⟨mid, hmid, hlast⟩ := h
    exact step l a mid b' (ih hmid) (by simpa using hlast)

/-- A fold over groups of steps, each of them with a condition of its own, is a fold over all
steps. -/
lemma foldlM_flatMap_eq_ok_iff {δ : Type w} {f : β → δ → Except ε β} {g : β → α → Except ε β}
    {steps : δ → List α} {C : δ → Prop}
    (h : ∀ d s s', f s d = .ok s' ↔ C d ∧ (steps d).foldlM g s = .ok s') {l : List δ} {s s' : β} :
    l.foldlM f s = .ok s' ↔ (∀ d ∈ l, C d) ∧ (l.flatMap steps).foldlM g s = .ok s' := by
  induction l generalizing s with
  | nil => simp
  | cons d l ih =>
    simp only [foldlM_cons, flatMap_cons, foldlM_append, bind_eq_ok_iff, h, ih, forall_mem_cons]
    constructor
    · rintro ⟨s₁, ⟨hd, hsteps⟩, hl, hrest⟩
      exact ⟨⟨hd, hl⟩, s₁, hsteps, hrest⟩
    · rintro ⟨⟨hd, hl⟩, s₁, hsteps, hrest⟩
      exact ⟨s₁, ⟨hd, hsteps⟩, hl, hrest⟩

/-- Runs `f` over the elements, passing the state along and collecting what is emitted. -/
def emitAll {σ γ : Type v} (f : σ → α → Except ε (List γ × σ)) :
    σ → List α → Except ε (List γ × σ)
  | s, [] => .ok ([], s)
  | s, a :: l => do
    let (out, s) ← f s a
    let (rest, s) ← emitAll f s l
    .ok (out ++ rest, s)

variable {γ : Type v} {out : List γ} {s' : σ}

section EmitAll

variable {f : σ → α → Except ε (List γ × σ)}

lemma emitAll_cons_eq_ok_iff :
    emitAll f s (a :: l) = .ok (out, s') ↔
      ∃ out₁ s₁ out₂, f s a = .ok (out₁, s₁) ∧ emitAll f s₁ l = .ok (out₂, s') ∧
        out = out₁ ++ out₂ := by
  simp only [emitAll, bind_eq_ok_iff, Prod.exists, Except.ok.injEq, Prod.mk.injEq,
    exists_and_left, exists_eq_right_right, eq_comm (a := out)]

lemma emitAll_append_eq_ok_iff {l' : List α} :
    emitAll f s (l ++ l') = .ok (out, s') ↔
      ∃ out₁ s₁ out₂, emitAll f s l = .ok (out₁, s₁) ∧ emitAll f s₁ l' = .ok (out₂, s') ∧
        out = out₁ ++ out₂ := by
  induction l generalizing s out with
  | nil =>
    constructor
    · intro h
      exact ⟨[], s, out, rfl, h, rfl⟩
    · intro ⟨out₁, s₁, out₂, hfirst, hrest, h⟩
      cases hfirst
      rw [h]
      exact hrest
  | cons a l ih =>
    simp only [cons_append, emitAll_cons_eq_ok_iff, ih]
    constructor
    · intro ⟨out₁, s₁, _, hfirst, ⟨out₂, s₂, out₃, hmid, hrest, hout⟩, h⟩
      exact ⟨out₁ ++ out₂, s₂, out₃, ⟨out₁, s₁, out₂, hfirst, hmid, rfl⟩, hrest, by simp [h, hout]⟩
    · intro ⟨_, s₂, out₃, ⟨out₁, s₁, out₂, hfirst, hmid, hout⟩, hrest, h⟩
      exact ⟨out₁, s₁, out₂ ++ out₃, hfirst, ⟨out₂, s₂, out₃, hmid, hrest, rfl⟩, by simp [h, hout]⟩

lemma emitAll_congr {l' : List α} (h : List.Forall₂ (fun a b => ∀ s, f s a = f s b) l l') (s : σ) :
    emitAll f s l = emitAll f s l' := by
  induction h generalizing s with
  | nil => rfl
  | cons hfirst _ ih => simp only [emitAll, hfirst, ih]

/-- The invariant rule for a loop with output: `I done out s` relates the elements done, what
they emitted and the state. -/
lemma emitAll_invariant (I : List α → List γ → σ → Prop)
    (step : ∀ done a rest out s out' s', l = done ++ a :: rest → I done out s →
      f s a = .ok (out', s') → I (done ++ [a]) (out ++ out') s') (hs : I [] [] s)
    (h : emitAll f s l = .ok (out, s')) : I l out s' := by
  suffices ∀ rest done out₀ s out, l = done ++ rest → I done out₀ s →
      emitAll f s rest = .ok (out, s') → I l (out₀ ++ out) s' from
    this l [] [] s out rfl hs h
  intro rest
  induction rest with
  | nil =>
    intro done out₀ s out hl hs h
    cases h
    simpa [hl] using hs
  | cons a rest ih =>
    intro done out₀ s out hl hs h
    rw [emitAll_cons_eq_ok_iff] at h
    obtain ⟨out₁, s₁, out₂, hfirst, hrest, rfl⟩ := h
    have hstep := step done a rest out₀ s out₁ s₁ hl hs hfirst
    have := ih (done ++ [a]) (out₀ ++ out₁) s₁ out₂ (by simpa using hl) hstep hrest
    simpa using this

end EmitAll

/-- Maps `f` over the elements, passing a state along. -/
def mapAccumM {σ γ : Type v} (f : σ → α → Except ε (γ × σ)) :
    σ → List α → Except ε (List γ × σ)
  | s, [] => .ok ([], s)
  | s, a :: l => do
    let (b, s) ← f s a
    let (rest, s) ← mapAccumM f s l
    .ok (b :: rest, s)

section MapAccumM

variable {f : σ → α → Except ε (γ × σ)}

lemma mapAccumM_cons_eq_ok_iff :
    mapAccumM f s (a :: l) = .ok (out, s') ↔
      ∃ b s₁ rest, f s a = .ok (b, s₁) ∧ mapAccumM f s₁ l = .ok (rest, s') ∧ out = b :: rest := by
  simp only [mapAccumM, bind_eq_ok_iff, Prod.exists, Except.ok.injEq, Prod.mk.injEq,
    exists_and_left, exists_eq_right_right, eq_comm (a := out)]

/-- Two loops whose steps return the same and keep a relation between their states. -/
lemma mapAccumM_refines {τ : Type v} {g : τ → α → Except ε (γ × τ)}
    (R : σ → τ → Prop) (step : ∀ {s t}, R s t → ∀ a, ∃ b s' t', f s a = .ok (b, s') ∧
      g t a = .ok (b, t') ∧ R s' t') {t : τ} (h : R s t) (l : List α) :
    ∃ out s' t', mapAccumM f s l = .ok (out, s') ∧ mapAccumM g t l = .ok (out, t') ∧ R s' t' := by
  induction l generalizing s t with
  | nil => exact ⟨[], s, t, rfl, rfl, h⟩
  | cons a l ih =>
    obtain ⟨b, s₁, t₁, hf, hg, h₁⟩ := step h a
    obtain ⟨out, s', t', hf', hg', h'⟩ := ih h₁
    exact ⟨b :: out, s', t', mapAccumM_cons_eq_ok_iff.2 ⟨b, s₁, out, hf, hf', rfl⟩,
      mapAccumM_cons_eq_ok_iff.2 ⟨b, t₁, out, hg, hg', rfl⟩, h'⟩

lemma forall₂_of_mapAccumM (h : mapAccumM f s l = .ok (out, s')) :
    List.Forall₂ (fun a b => ∃ s s', f s a = .ok (b, s')) l out := by
  induction l generalizing s out with
  | nil =>
    cases h
    exact .nil
  | cons a l ih =>
    obtain ⟨b, s₁, rest, hfirst, hrest, rfl⟩ := mapAccumM_cons_eq_ok_iff.1 h
    exact .cons ⟨s, s₁, hfirst⟩ (ih hrest)

lemma length_of_mapAccumM (h : mapAccumM f s l = .ok (out, s')) : out.length = l.length :=
  (forall₂_of_mapAccumM h).length_eq.symm

/-- Mapping the results of every step maps the results. -/
lemma mapAccumM_map {δ : Type v} {f' : σ → α → Except ε (δ × σ)}
    {g : γ → δ} (h : ∀ a ∈ l, ∀ s, f' s a = (f s a).map fun r => (g r.1, r.2)) (s : σ) :
    mapAccumM f' s l = (mapAccumM f s l).map fun r => (r.1.map g, r.2) := by
  induction l generalizing s with
  | nil => rfl
  | cons a l ih =>
    rw [forall_mem_cons] at h
    rw [mapAccumM, mapAccumM, h.1 s]
    cases f s a with
    | error err => rfl
    | ok r =>
      have hrest := ih h.2 r.2
      simp only [Except.map, bind, Except.bind] at hrest ⊢
      rw [hrest]
      cases mapAccumM f r.2 l with
      | error err => rfl
      | ok r' => rfl

end MapAccumM

/-! ## Errors -/

/-- If the computation fails, then with an error that satisfies `P`. -/
def FailsOnly (P : ε → Prop) (x : Except ε α) : Prop := ∀ err, x = .error err → P err

section FailsOnly

variable {P : ε → Prop}

lemma failsOnly_ok (a : α) : FailsOnly P (.ok a) := by
  intro err h
  cases h

lemma failsOnly_error (h : P err) : FailsOnly P (.error err : Except ε α) := by
  intro err' h'
  cases h'
  exact h

lemma FailsOnly.mono (hx : FailsOnly P x) {Q : ε → Prop} (h : ∀ err, P err → Q err) :
    FailsOnly Q x :=
  fun err herr => h err (hx err herr)

lemma FailsOnly.bind (hx : FailsOnly P x) (hf : ∀ a, FailsOnly P (f a)) :
    FailsOnly P (x >>= f) := by
  cases x with
  | error err => exact failsOnly_error (hx err rfl)
  | ok a => exact hf a

lemma failsOnly_mapM (hf : ∀ a, FailsOnly P (f a)) (l : List α) : FailsOnly P (l.mapM f) := by
  induction l with
  | nil => exact failsOnly_ok []
  | cons a l ih =>
    rw [mapM_cons]
    exact (hf a).bind fun b => ih.bind fun rest => failsOnly_ok (b :: rest)

lemma failsOnly_emitAll {f : σ → α → Except ε (List γ × σ)} (hf : ∀ s a, FailsOnly P (f s a))
    (s : σ) (l : List α) : FailsOnly P (emitAll f s l) := by
  induction l generalizing s with
  | nil => exact failsOnly_ok _
  | cons a l ih => exact (hf s a).bind fun r => (ih r.2).bind fun rest => failsOnly_ok _

end FailsOnly

end Lib.ExceptFold
