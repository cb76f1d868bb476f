import Mathlib.Data.Nat.Notation

/-!
# Parsers with a state

A parser consumes a list of tokens, updates a state of its own and may fail. `Parses m s bytes a
s'` says what it does on an input that starts with `bytes`, whatever comes after: it consumes
just `bytes`, returns `a` and goes from state `s` to `s'`. `Rejects m s bytes` says that no input
that starts with `bytes` gets through. Both compose along `bind`, so what a parser does on the
concatenation of encoded parts is put together from what it does on the parts.
-/

namespace Lib.Parser

open List

variable {β ε σ α γ : Type}

abbrev StateParser (β ε σ : Type) := StateT σ (StateT (List β) (Except ε))

/-- The parser that takes a prefix of the input apart with `f`, or fails with `err`. -/
def token (f : List β → Option (α × List β)) (err : ε) : StateParser β ε σ α := fun s data =>
  match f data with
  | some (a, rest) => .ok ((a, s), rest)
  | none => .error err

/-- Runs `m` the given number of times. -/
def times (m : StateParser β ε σ α) : ℕ → StateParser β ε σ (List α)
  | 0 => pure []
  | n + 1 => do
    let a ← m
    let l ← times m n
    return a :: l

def Parses (m : StateParser β ε σ α) (s : σ) (bytes : List β) (a : α) (s' : σ) : Prop :=
  ∀ rest, m s (bytes ++ rest) = .ok ((a, s'), rest)

def Rejects (m : StateParser β ε σ α) (s : σ) (bytes : List β) : Prop :=
  ∀ rest, ∃ err, m s (bytes ++ rest) = .error err

variable {m : StateParser β ε σ α} {f : α → StateParser β ε σ γ} {s s' s'' : σ}
  {bytes bytes' : List β} {a : α} {b : γ}

lemma parses_pure (a : α) (s : σ) : Parses (pure a : StateParser β ε σ α) s [] a s := fun _ => rfl

lemma parses_get (s : σ) : Parses (get : StateParser β ε σ σ) s [] s s := fun _ => rfl

lemma parses_modify (g : σ → σ) (s : σ) :
    Parses (modify g : StateParser β ε σ Unit) s [] () (g s) :=
  fun _ => rfl

lemma parses_token {f : List β → Option (α × List β)} {err : ε}
    (h : ∀ rest, f (bytes ++ rest) = some (a, rest)) :
    Parses (token f err : StateParser β ε σ α) s bytes a s := by
  intro rest
  simp only [token, h rest]

lemma Parses.bind_apply (hm : Parses m s bytes a s') (rest : List β) :
    (m >>= f) s (bytes ++ rest) = f a s' rest := by
  simp only [Bind.bind, StateT.bind, hm rest, Except.bind]

lemma Parses.bind (hm : Parses m s bytes a s') (hf : Parses (f a) s' bytes' b s'') :
    Parses (m >>= f) s (bytes ++ bytes') b s'' := by
  intro rest
  rw [append_assoc, hm.bind_apply]
  exact hf rest

lemma Parses.nil_bind (hm : Parses m s [] a s') (hf : Parses (f a) s' bytes' b s'') :
    Parses (m >>= f) s bytes' b s'' :=
  hm.bind hf

lemma Parses.bind_nil (hm : Parses m s bytes a s') (hf : Parses (f a) s' [] b s'') :
    Parses (m >>= f) s bytes b s'' := by
  have h := hm.bind hf
  rwa [append_nil] at h

/-- Repeating a parser over the encodings of a list: `next` is what one element does to the
state. -/
lemma parses_times {δ : Type} {encode : δ → List β} {value : δ → α} (next : σ → δ → σ)
    {l : List δ} (hm : ∀ s, ∀ x ∈ l, Parses m s (encode x) (value x) (next s x)) (s : σ) :
    Parses (times m l.length) s (l.flatMap encode) (l.map value) (l.foldl next s) := by
  induction l generalizing s with
  | nil => exact parses_pure [] s
  | cons x l ih =>
    have hfirst := hm s x mem_cons_self
    have hrest := ih (fun s y hy => hm s y (mem_cons_of_mem x hy)) (next s x)
    exact hfirst.bind (hrest.bind_nil (parses_pure _ _))

lemma rejects_throw (err : ε) (s : σ) (bytes : List β) :
    Rejects (throw err : StateParser β ε σ α) s bytes :=
  fun _ => ⟨err, rfl⟩

lemma Rejects.bind (hm : Rejects m s bytes) : Rejects (m >>= f) s bytes := by
  intro rest
  obtain ⟨err, herr⟩ := hm rest
  refine ⟨err, ?_⟩
  simp only [Bind.bind, StateT.bind, herr, Except.bind]

lemma Rejects.append (hm : Rejects m s bytes) : Rejects m s (bytes ++ bytes') := by
  intro rest
  rw [append_assoc]
  exact hm (bytes' ++ rest)

lemma Parses.bind_rejects (hm : Parses m s bytes a s') (hf : Rejects (f a) s' bytes') :
    Rejects (m >>= f) s (bytes ++ bytes') := by
  intro rest
  rw [append_assoc, hm.bind_apply]
  exact hf rest

lemma Parses.bind_rejects_nil (hm : Parses m s bytes a s') (hf : Rejects (f a) s' []) :
    Rejects (m >>= f) s bytes := by
  have h := hm.bind_rejects hf
  rwa [append_nil] at h

lemma length_le_length_flatMap {δ : Type} {encode : δ → List β} (hpos : ∀ x, 0 < (encode x).length)
    (l : List δ) : l.length ≤ (l.flatMap encode).length := by
  induction l with
  | nil => simp
  | cons x l ih =>
    have := hpos x
    rw [flatMap_cons, length_append, length_cons]
    omega

lemma rejects_times {δ : Type} {encode : δ → List β} {value : δ → α} (next : σ → δ → σ)
    {l : List δ} (hm : ∀ s, ∀ x ∈ l, Parses m s (encode x) (value x) (next s x) ∨
      Rejects m s (encode x)) {x : δ} (hx : x ∈ l) (hreject : ∀ s, Rejects m s (encode x))
    (s : σ) : Rejects (times m l.length) s (l.flatMap encode) := by
  induction l generalizing s with
  | nil => cases hx
  | cons y l ih =>
    rcases hm s y mem_cons_self with hparse | hfail
    · rcases mem_cons.mp hx with rfl | hmem
      · exact (hreject s).bind.append
      · have hrest := ih (fun s z hz => hm s z (mem_cons_of_mem y hz)) hmem (next s y)
        exact hparse.bind_rejects hrest.bind
    · exact hfail.bind.append

end Lib.Parser
