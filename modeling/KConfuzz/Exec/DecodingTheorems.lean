import Mathlib.Data.List.Basic
import KConfuzz.Exec.Decoding

/-!
# What the decoder does on encoded instructions

`InstrArg.decode` is the argument that is read back from an encoded one and
`ExecDecoder.exec` what an instruction does to the state of the decoder. The parser does just
that on the encodings (`parses_parseInstr`), so that the rest of the development reasons about
lists of instructions instead of bytes.
-/

namespace KConfuzz

open Lib.Parser Lib.Varint List InstrArg

def InstrChunk.decode (target : Target) (chunk : InstrChunk) : InstrChunk :=
  if chunk.kind = execArgCsumChunkData then
    { chunk with value := chunk.value + target.dataOffset }
  else chunk

def InstrArg.decode (target : Target) : InstrArg → ExecArg
  | const info val =>
    .const (info &&& 0xff) ((info >>> 8) &&& 0xff) val ((info >>> 16) &&& 0xff)
      ((info >>> 24) &&& 0xff) (info >>> 32)
  | addr32 addr => .const 4 0 (addr + target.dataOffset) 0 0 0
  | addr64 addr => .const 8 0 (addr + target.dataOffset) 0 0 0
  | result info idx opDiv opAdd default =>
    .result (info &&& 0xff) ((info >>> 8) &&& 0xff) idx opDiv opAdd default
  | data readable blob => .data blob readable
  | csum size kind chunks => .csum size kind (chunks.map (InstrChunk.decode target))

/-- The argument can be read back: a checksum is of the only kind there is. -/
def InstrArg.Known : InstrArg → Prop
  | csum _ kind _ => kind = execArgCsumInet
  | _ => True

/-- The arguments a call can have. -/
def InstrArg.isScalar : InstrArg → Bool
  | const .. | addr32 _ | addr64 _ | result .. => true
  | data .. | csum .. => false

@[simp] lemma InstrArg.isScalar_decode (target : Target) (arg : InstrArg) :
    (arg.decode target).isScalar = arg.isScalar := by
  cases arg <;> rfl

/-! ## Words -/

lemma toNat_wordLength {α : Type} {l : List α} (h : l.length < 2 ^ 64) :
    (wordLength l).toNat = l.length := by
  rw [wordLength, UInt64.toNat_ofNat', Nat.mod_eq_of_lt h]

lemma toNat_wordLength_chunks {size kind : UInt64} {chunks : List InstrChunk}
    (hfits : (csum size kind chunks).encode.length < 2 ^ 63) :
    (wordLength chunks).toNat = chunks.length := by
  have := length_le_length_flatMap InstrChunk.encode_length_pos chunks
  simp only [encode, length_append] at hfits
  exact toNat_wordLength (by omega)

/-- The readable bit is no part of the size of a blob. -/
lemma dataFlags_spec {readable : Bool} {blob : List UInt8}
    (hfits : (data readable blob).encode.length < 2 ^ 63) :
    (dataFlags readable blob &&& ~~~execArgDataReadable).toNat = blob.length ∧
      (dataFlags readable blob &&& execArgDataReadable != 0) = readable := by
  have h : blob.length < 2 ^ 63 := by
    simp only [encode, length_append] at hfits
    omega
  have hword : (wordLength blob).toNat = blob.length := toNat_wordLength (by omega)
  have hbit : execArgDataReadable.toNat = 2 ^ 63 := rfl
  have hmask : (~~~execArgDataReadable).toNat = 2 ^ 63 - 1 := rfl
  have hflags : (dataFlags readable blob).toNat =
      if readable then blob.length ||| 2 ^ 63 else blob.length := by
    unfold dataFlags
    split
    · rw [UInt64.toNat_or, hword, hbit]
    · exact hword
  have hmod : blob.length % 2 ^ 63 = blob.length := Nat.mod_eq_of_lt h
  have hlow : blob.length.testBit 63 = false := Nat.testBit_lt_two_pow h
  constructor
  · rw [UInt64.toNat_and, hmask, hflags, Nat.and_two_pow_sub_one_eq_mod]
    split
    · rw [Nat.or_mod_two_pow, hmod, Nat.mod_self, Nat.or_zero]
    · exact hmod
  · have hand : (dataFlags readable blob &&& execArgDataReadable).toNat =
        if readable then 2 ^ 63 else 0 := by
      rw [UInt64.toNat_and, hbit, hflags, Nat.and_two_pow]
      split
      · rw [Nat.testBit_or, hlow, Nat.testBit_two_pow_self]
        rfl
      · rw [hlow]
        rfl
    cases readable with
    | false =>
      have hzero : dataFlags false blob &&& execArgDataReadable = 0 := UInt64.toNat.inj hand
      rw [hzero]
      rfl
    | true =>
      rw [bne_iff_ne]
      intro h0
      rw [h0] at hand
      cases hand

section

variable {ε σ α : Type} {err : ε} {f : UInt64 → StateParser UInt8 ε σ α} {v size : UInt64}
  {s s' : σ} {bytes blob : List UInt8} {a : α}

lemma parses_word (h : Parses (f v) s bytes a s') :
    Parses (token varint err >>= f) s (write v ++ bytes) a s' :=
  (parses_token (varint_appendVarint v)).bind h

lemma parses_last_word (h : Parses (f v) s [] a s') :
    Parses (token varint err >>= f) s (write v) a s' :=
  (parses_token (varint_appendVarint v)).bind_nil h

lemma parses_blob (h : size.toNat = blob.length) :
    Parses (token (fun data => if data.length < size.toNat then none
      else some (data.take size.toNat, data.drop size.toNat)) err) s blob blob s := by
  apply parses_token
  intro rest
  have hlen : ¬ (blob ++ rest).length < blob.length := by
    rw [length_append]
    omega
  rw [h, if_neg hlen, take_left, drop_left]

end

namespace ExecDecoder

variable {target : Target} {dec : ExecDecoder} {instr : Instr}

lemma parses_read (v : UInt64) (dec : ExecDecoder) : Parses read dec (write v) v dec :=
  parses_token (varint_appendVarint v)

lemma parses_readChunk (target : Target) (chunk : InstrChunk) (dec : ExecDecoder) :
    Parses (readChunk target) dec chunk.encode (chunk.decode target) dec := by
  refine parses_word (parses_word (parses_last_word ?_))
  have hchunk : chunk.decode target =
      { kind := chunk.kind
        value := if chunk.kind = execArgCsumChunkData then chunk.value + target.dataOffset
          else chunk.value
        size := chunk.size } := by
    unfold InstrChunk.decode
    split <;> rfl
  rw [hchunk]
  exact parses_pure _ _

/-- The decoder reads an argument back. -/
lemma parses_readArg {arg : InstrArg} (hknown : arg.Known) (hfits : arg.encode.length < 2 ^ 63)
    (dec : ExecDecoder) :
    Parses (readArg target) dec arg.encode (arg.decode target)
      (dec.recordVar (arg.decode target)) := by
  cases arg with
  | const info val =>
    refine parses_word ?_
    exact parses_word (parses_last_word (parses_pure _ _))
  | addr32 addr | addr64 addr =>
    refine parses_word ?_
    exact parses_last_word (parses_pure _ _)
  | result info idx opDiv opAdd default =>
    refine parses_word ?_
    exact parses_word (parses_word (parses_word (parses_word (parses_last_word ((parses_modify _ _).nil_bind (parses_pure _ _))))))
  | data readable blob =>
    obtain ⟨hsize, hreadable⟩ := dataFlags_spec hfits
    refine parses_word ?_
    refine parses_word ((parses_blob hsize).bind_nil ?_)
    rw [hreadable]
    exact parses_pure _ _
  | csum size kind chunks =>
    have hkind : kind = execArgCsumInet := hknown
    refine parses_word ?_
    refine parses_word (parses_word ?_)
    rw [if_pos hkind]
    refine parses_word ?_
    rw [toNat_wordLength_chunks hfits]
    have htimes := parses_times (fun dec _ => dec)
      (fun dec chunk (_ : chunk ∈ chunks) => parses_readChunk target chunk dec) dec
    rw [foldl_fixed] at htimes
    exact htimes.bind_nil (parses_pure _ _)

/-! ## Instructions -/

/-- What an instruction does to the state of the decoder. -/
def exec (target : Target) (dec : ExecDecoder) : Instr → ExecDecoder
  | .copyin i =>
    let arg := i.arg.decode target
    let dec := dec.commitCall.recordVar arg
    { dec with call.copyin := dec.call.copyin ++ [{ addr := i.addr + target.dataOffset, arg }] }
  | .copyout i =>
    { dec with
      call.copyout := dec.call.copyout ++
        [{ index := i.idx, addr := i.addr + target.dataOffset, size := i.size }] }
  | .setProps props =>
    let dec := dec.commitCall
    { dec with
      call.props :=
        { failNth := propInt (UInt64.ofInt props.failNth)
          async := dec.call.props.async || boolWord props.async == 1
          rerun := propInt (UInt64.ofInt props.rerun) } }
  | .kconfuzzConfig i =>
    let dec := dec.commitCall
    { dec with
      kconfuzzActions := dec.kconfuzzActions ++
        [{ beforeCall := wordLength dec.calls, paramID := i.paramID, valueID := i.valueID
           flags := i.flags }] }
  | .call id copyoutIdx args =>
    let dec := (args.map (InstrArg.decode target)).foldl recordVar dec.commitCall
    { dec with
      call.callMeta := target.syscalls[id.toNat]?
      call.index := copyoutIdx
      call.args := dec.call.args ++ args.map (InstrArg.decode target) }
  | .eof => dec.commitCall

/-- The instruction can be read back, the arguments of a call aside: its parts have known kinds,
and a call is one of the target's. -/
def Readable (target : Target) : Instr → Prop
  | .copyin i => i.arg.Known
  | .call id _ args => id.toNat < target.syscalls.length ∧ ∀ arg ∈ args, arg.Known
  | _ => True

/-- All arguments of a call can be passed to one. -/
def ScalarArgs : Instr → Prop
  | .call _ _ args => ∀ arg ∈ args, arg.isScalar
  | _ => True

lemma ne_of_lt_length {id : UInt64} (h : id.toNat < target.syscalls.length) {instr : UInt64}
    (hinstr : fallbackCallMask < instr.toNat) : id ≠ instr := by
  intro heq
  have := target.maxCallID
  rw [heq] at h
  omega

section CallArgs

variable {id copyoutIdx : UInt64} {args : List InstrArg}
  (hfits : (Instr.call id copyoutIdx args).encode.length < 2 ^ 63)

include hfits

lemma length_lt_of_fits : args.length < 2 ^ 64 := by
  have := length_le_length_flatMap encode_length_pos args
  simp only [Instr.encode, length_append] at hfits
  omega

lemma encode_lt_of_mem (arg : InstrArg) (harg : arg ∈ args) : arg.encode.length < 2 ^ 63 := by
  have := (sublist_flatten_of_mem (mem_map_of_mem (f := encode) harg)).length_le
  simp only [Instr.encode, length_append, flatMap_def] at hfits
  omega

end CallArgs

lemma parses_readCallArg {arg : InstrArg} (hknown : arg.Known)
    (hfits : arg.encode.length < 2 ^ 63) (hscalar : arg.isScalar) (dec : ExecDecoder) :
    Parses (readCallArg target) dec arg.encode (arg.decode target)
      (dec.recordVar (arg.decode target)) := by
  refine (parses_readArg hknown hfits dec).bind_nil ?_
  rw [isScalar_decode, if_pos hscalar]
  exact parses_pure _ _

/-- The decoder reads an instruction back. -/
lemma parses_parseInstr (hreadable : Readable target instr) (hscalar : ScalarArgs instr)
    (hfits : instr.encode.length < 2 ^ 63) (heof : instr ≠ .eof) (ncalls : UInt64)
    (dec : ExecDecoder) :
    Parses (parseInstr target ncalls) dec instr.encode false (dec.exec target instr) := by
  cases instr with
  | eof => exact absurd rfl heof
  | copyin i =>
    have harg : i.arg.encode.length < 2 ^ 63 := by
      simp only [Instr.encode, length_append] at hfits
      omega
    refine parses_word ?_
    exact (parses_modify _ _).nil_bind (parses_word ((parses_readArg hreadable harg _).bind_nil ((parses_modify _ _).nil_bind (parses_pure _ _))))
  | copyout i =>
    refine parses_word ?_
    exact parses_word (parses_word (parses_last_word ((parses_modify _ _).nil_bind (parses_pure _ _))))
  | setProps props | kconfuzzConfig i =>
    refine parses_word ?_
    exact (parses_modify _ _).nil_bind (parses_word (parses_word (parses_last_word ((parses_modify _ _).nil_bind (parses_pure _ _)))))
  | call id copyoutIdx args =>
    obtain ⟨hid, hknown⟩ := hreadable
    have hfit := encode_lt_of_mem hfits
    refine parses_word ?_
    repeat rw [if_neg (ne_of_lt_length hid (by decide))]
    refine (parses_modify _ _).nil_bind ?_
    have htimes := parses_times (fun dec arg => dec.recordVar (decode target arg))
      (fun dec arg harg => parses_readCallArg (hknown arg harg) (hfit arg harg) (hscalar arg harg)
        dec) dec.commitCall
    rw [← foldl_map] at htimes
    simp only [exec, getElem?_eq_getElem hid]
    refine parses_word (parses_word ?_)
    rw [toNat_wordLength (length_lt_of_fits hfits)]
    exact htimes.bind_nil ((parses_modify _ _).nil_bind (parses_pure _ _))

lemma rejects_readCallArg {arg : InstrArg} (hknown : arg.Known)
    (hfits : arg.encode.length < 2 ^ 63) (hscalar : ¬ arg.isScalar) (dec : ExecDecoder) :
    Rejects (readCallArg target) dec arg.encode := by
  refine (parses_readArg hknown hfits dec).bind_rejects_nil ?_
  rw [isScalar_decode, if_neg hscalar]
  exact rejects_throw _ _ _

/-- A call with an argument that cannot be passed to one is rejected. -/
lemma rejects_parseInstr (hreadable : Readable target instr) (hscalar : ¬ ScalarArgs instr)
    (hfits : instr.encode.length < 2 ^ 63) (ncalls : UInt64) (dec : ExecDecoder) :
    Rejects (parseInstr target ncalls) dec instr.encode := by
  cases instr with
  | call id copyoutIdx args =>
    obtain ⟨hid, hknown⟩ := hreadable
    have hfit := encode_lt_of_mem hfits
    simp only [ScalarArgs, not_forall] at hscalar
    obtain ⟨arg, harg, hbad⟩ := hscalar
    refine (parses_read _ _).bind_rejects ?_
    repeat rw [if_neg (ne_of_lt_length hid (by decide))]
    rw [getElem?_eq_getElem hid]
    refine (parses_modify _ _).bind_rejects
      ((parses_read _ _).bind_rejects ((parses_read _ _).bind_rejects ?_))
    rw [toNat_wordLength (length_lt_of_fits hfits)]
    have heach : ∀ dec, ∀ arg ∈ args,
        Parses (readCallArg target) dec arg.encode (arg.decode target)
          (dec.recordVar (arg.decode target)) ∨ Rejects (readCallArg target) dec arg.encode := by
      intro dec arg harg
      by_cases hok : arg.isScalar
      · exact .inl (parses_readCallArg (hknown arg harg) (hfit arg harg) hok dec)
      · exact .inr (rejects_readCallArg (hknown arg harg) (hfit arg harg) hok dec)
    exact Rejects.bind (rejects_times _ heach harg
      (fun dec => rejects_readCallArg (hknown arg harg) (hfit arg harg) hbad dec) _)
  | _ => exact absurd trivial hscalar

/-! ## Whole programs -/

variable {instrs : List Instr} (hreadable : ∀ instr ∈ instrs, Readable target instr)
  (heof : .eof ∉ instrs) (hfits : (encodeAll instrs).length < 2 ^ 63)

lemma parses_parseInstr_eof {ncalls : UInt64} (hncalls : ncalls = wordLength dec.commitCall.calls) :
    Parses (parseInstr target ncalls) dec Instr.eof.encode true dec.commitCall := by
  refine parses_last_word ?_
  refine (parses_modify _ _).nil_bind ((parses_get _).nil_bind ?_)
  rw [if_pos hncalls]
  exact parses_pure _ _

include hreadable heof hfits

/-- The loop carries the instructions out one by one and commits the last call. -/
lemma parses_parseLoop {n : ℕ} (hn : instrs.length < n) {ncalls : UInt64}
    (hscalar : ∀ instr ∈ instrs, ScalarArgs instr) (dec : ExecDecoder)
    (hncalls : ncalls = wordLength (instrs.foldl (exec target) dec).commitCall.calls) :
    Parses (parseLoop target ncalls n) dec (encodeAll (instrs ++ [.eof])) ()
      (instrs.foldl (exec target) dec).commitCall := by
  induction instrs generalizing n dec with
  | nil =>
    obtain ⟨n, rfl⟩ : ∃ m, n = m + 1 := ⟨n - 1, by omega⟩
    exact (parses_parseInstr_eof hncalls).bind (parses_pure _ _)
  | cons instr instrs ih =>
    obtain ⟨n, rfl⟩ : ∃ m, n = m + 1 := ⟨n - 1, by omega⟩
    simp only [mem_cons, not_or, forall_eq_or_imp, length_cons, encodeAll_cons,
      length_append] at hreadable heof hfits hscalar hn
    have hfirst := parses_parseInstr hreadable.1 hscalar.1 (by omega) (Ne.symm heof.1) ncalls dec
    have hlen : instrs.length < n := by omega
    have hrest := ih hreadable.2 heof.2 (by omega) hlen hscalar.2 (dec.exec target instr) hncalls
    exact hfirst.bind hrest

/-- A program with a call that is rejected is rejected. -/
lemma rejects_parseLoop (hinstr : instr ∈ instrs) (hscalar : ¬ ScalarArgs instr) (n : ℕ)
    (ncalls : UInt64) (dec : ExecDecoder) :
    Rejects (parseLoop target ncalls n) dec (encodeAll (instrs ++ [.eof])) := by
  induction instrs generalizing n dec with
  | nil => cases hinstr
  | cons first instrs ih =>
    cases n with
    | zero => exact rejects_throw _ _ _
    | succ n =>
      simp only [mem_cons, not_or, forall_eq_or_imp, encodeAll_cons, length_append]
        at hreadable heof hfits
      by_cases hok : ScalarArgs first
      · have hmem : instr ∈ instrs := by
          rcases mem_cons.mp hinstr with rfl | hmem
          · exact absurd hok hscalar
          · exact hmem
        exact (parses_parseInstr hreadable.1 hok (by omega) (Ne.symm heof.1) ncalls dec).bind_rejects
          (ih hreadable.2 heof.2 (by omega) hmem n (dec.exec target first))
      · exact (rejects_parseInstr hreadable.1 hok (by omega) ncalls dec).bind.append

end ExecDecoder

end KConfuzz
