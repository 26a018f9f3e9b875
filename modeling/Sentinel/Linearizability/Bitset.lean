import Mathlib.Data.Finset.Basic

/-! The `bitset` of the linearizability checker: position `pos` is bit `pos % 64` of
word `pos / 64`. `set`, `clear` and `get` index the slice of words and panic past its
end, here `none`. A bitset of the right length `Represents` a finite set of positions,
and `set`, `clear` and `equals` are insertion, erasure and equality of those sets. -/

namespace Sentinel.Linearizability

/-- `bitset`, a slice of `uint64` words. -/
abbrev Bitset := List UInt64

def newBitset (bits : Nat) : Bitset :=
  let extra := if bits % 64 ≠ 0 then 1 else 0
  List.replicate (bits / 64 + extra) 0

def bitsetIndex (pos : Nat) : Nat × Nat := (pos / 64,pos % 64)

namespace Bitset

/-- `clone`: a copy, which values of the model already are. -/
def clone (b : Bitset) : Bitset := b

def set (b : Bitset) (pos : Nat) : Option Bitset :=
  let (major,minor) := bitsetIndex pos
  b[major]?.map fun word => List.set b major (word ||| (1 : UInt64) <<< minor.toUInt64)

def clear (b : Bitset) (pos : Nat) : Option Bitset :=
  let (major,minor) := bitsetIndex pos
  b[major]?.map fun word => List.set b major (word &&& ~~~((1 : UInt64) <<< minor.toUInt64))

def get (b : Bitset) (pos : Nat) : Option Bool :=
  let (major,minor) := bitsetIndex pos
  b[major]?.map fun word => word &&& (1 : UInt64) <<< minor.toUInt64 != 0

/-- `popcnt`, with the SWAR Hamming weight of each word. -/
def popcnt (b : Bitset) : UInt64 :=
  b.foldl (fun (total v : UInt64) =>
    let v : UInt64 := (v &&& 0x5555555555555555) + ((v &&& 0xAAAAAAAAAAAAAAAA) >>> (1 : UInt64))
    let v : UInt64 := (v &&& 0x3333333333333333) + ((v &&& 0xCCCCCCCCCCCCCCCC) >>> (2 : UInt64))
    let v : UInt64 := (v &&& 0x0F0F0F0F0F0F0F0F) + ((v &&& 0xF0F0F0F0F0F0F0F0) >>> (4 : UInt64))
    let v : UInt64 := v * 0x0101010101010101
    total + ((v >>> (56 : UInt64)) &&& 0xFF)) 0

def hash (b : Bitset) : UInt64 := b.foldl (· ^^^ ·) b.popcnt

def equals (b b2 : Bitset) : Bool :=
  b.length = b2.length && (List.range b.length).all fun i => b[i]? == b2[i]?

/-! ### Words -/

private theorem mask_toBitVec (minor : Nat) (bound : minor < 64) :
    ((1 : UInt64) <<< minor.toUInt64).toBitVec = BitVec.twoPow 64 minor := by
  show (1 : BitVec 64) <<< (minor.toUInt64 % 64).toBitVec = _
  have shift : (minor.toUInt64 % 64).toBitVec.toNat = minor := by
    show (minor.toUInt64 % 64).toNat = minor
    rw [UInt64.toNat_mod]
    simp [Nat.toUInt64,UInt64.toNat,UInt64.ofNat]
    omega
  rw [BitVec.shiftLeft_eq',shift]
  ext i
  simp only [BitVec.getLsbD_shiftLeft,BitVec.getLsbD_one,BitVec.getLsbD_twoPow]
  by_cases same : (i : Nat) = minor
  · simp [same,bound]
  · rcases (show (i : Nat) - minor ≠ 0 ∨ (i : Nat) < minor by omega) with h | h <;>
      simp [same,h,Ne.symm same]

private theorem test_mask (word : UInt64) (minor : Nat) (bound : minor < 64) :
    (word &&& (1 : UInt64) <<< minor.toUInt64 != 0) = word.toBitVec.getLsbD minor := by
  have masked : (word &&& (1 : UInt64) <<< minor.toUInt64).toBitVec =
      word.toBitVec &&& BitVec.twoPow 64 minor := by
    rw [← mask_toBitVec minor bound]; rfl
  have ne : BitVec.twoPow 64 minor ≠ 0#64 := fun zero => by
    simpa [BitVec.getLsbD_twoPow,bound] using congrArg (BitVec.getLsbD · minor) zero
  have zero : word &&& (1 : UInt64) <<< minor.toUInt64 = 0 ↔
      (word &&& (1 : UInt64) <<< minor.toUInt64).toBitVec = 0 :=
    ⟨UInt64.toBitVec_eq_of_eq,UInt64.eq_of_toBitVec_eq⟩
  rw [Bool.eq_iff_iff,bne_iff_ne,ne_eq,zero,masked,BitVec.and_twoPow]
  cases word.toBitVec.getLsbD minor <;> simp [ne]

private theorem or_mask (word : UInt64) (minor i : Nat) (bound : minor < 64) :
    (word ||| (1 : UInt64) <<< minor.toUInt64).toBitVec.getLsbD i =
      (word.toBitVec.getLsbD i || decide (i = minor)) := by
  show (word.toBitVec ||| ((1 : UInt64) <<< minor.toUInt64).toBitVec).getLsbD i = _
  rw [mask_toBitVec minor bound]
  simp [BitVec.getLsbD_twoPow,bound,eq_comm]

private theorem and_not_mask (word : UInt64) (minor i : Nat) (bound : minor < 64) (lt : i < 64) :
    (word &&& ~~~((1 : UInt64) <<< minor.toUInt64)).toBitVec.getLsbD i =
      (word.toBitVec.getLsbD i && !decide (i = minor)) := by
  show (word.toBitVec &&& ~~~((1 : UInt64) <<< minor.toUInt64).toBitVec).getLsbD i = _
  rw [mask_toBitVec minor bound]
  simp [BitVec.getLsbD_twoPow,bound,lt,eq_comm]

/-! ### Positions -/

theorem get_eq (b : Bitset) (pos : Nat) :
    b.get pos = b[pos / 64]?.map fun word => word.toBitVec.getLsbD (pos % 64) := by
  simp only [get,bitsetIndex]
  congr
  funext word
  exact test_mask word _ (Nat.mod_lt _ (by decide))

private theorem length_of_set {b b' : Bitset} {pos : Nat} (success : b.set pos = some b') :
    b'.length = b.length := by
  simp only [set,bitsetIndex,Option.map_eq_some'] at success
  obtain ⟨_,_,rfl⟩ := success
  simp

private theorem length_of_clear {b b' : Bitset} {pos : Nat} (success : b.clear pos = some b') :
    b'.length = b.length := by
  simp only [clear,bitsetIndex,Option.map_eq_some'] at success
  obtain ⟨_,_,rfl⟩ := success
  simp

theorem set_isSome {b : Bitset} {pos : Nat} (bound : pos < 64 * b.length) : (b.set pos).isSome := by
  simp [set,bitsetIndex,List.getElem?_eq_getElem (show pos / 64 < b.length by omega)]

theorem clear_isSome {b : Bitset} {pos : Nat} (bound : pos < 64 * b.length) : (b.clear pos).isSome := by
  simp [clear,bitsetIndex,List.getElem?_eq_getElem (show pos / 64 < b.length by omega)]

private theorem same_word {pos q : Nat} (word : q / 64 = pos / 64) : q % 64 = pos % 64 ↔ q = pos := by
  omega

theorem get_of_set {b b' : Bitset} {pos : Nat} (success : b.set pos = some b') (q : Nat) :
    b'.get q = (b.get q).map (· || decide (q = pos)) := by
  simp only [set,bitsetIndex,Option.map_eq_some'] at success
  obtain ⟨word,found,rfl⟩ := success
  rw [get_eq,get_eq,List.getElem?_set]
  by_cases major : pos / 64 = q / 64
  · have bound : pos / 64 < b.length := (List.getElem?_eq_some_iff.1 found).1
    rw [if_pos major,if_pos bound,← major,found]
    simp only [Option.map_some',or_mask _ _ _ (Nat.mod_lt _ (by decide : 64 > 0)),same_word major.symm]
  · have : q ≠ pos := fun same => major (same ▸ rfl)
    cases b[q / 64]? <;> simp [major,this]

theorem get_of_clear {b b' : Bitset} {pos : Nat} (success : b.clear pos = some b') (q : Nat) :
    b'.get q = (b.get q).map (· && !decide (q = pos)) := by
  simp only [clear,bitsetIndex,Option.map_eq_some'] at success
  obtain ⟨word,found,rfl⟩ := success
  rw [get_eq,get_eq,List.getElem?_set]
  by_cases major : pos / 64 = q / 64
  · have bound : pos / 64 < b.length := (List.getElem?_eq_some_iff.1 found).1
    rw [if_pos major,if_pos bound,← major,found]
    simp only [Option.map_some',
      and_not_mask _ _ _ (Nat.mod_lt _ (by decide : 64 > 0)) (Nat.mod_lt _ (by decide : 64 > 0)),
      same_word major.symm]
  · have : q ≠ pos := fun same => major (same ▸ rfl)
    cases b[q / 64]? <;> simp [major,this]

theorem get_newBitset (bits q : Nat) (bound : q < 64 * (newBitset bits).length) :
    (newBitset bits).get q = some false := by
  rw [get_eq,List.getElem?_eq_getElem (by omega)]
  simp [newBitset]

theorem ext_get {b b2 : Bitset} (length : b.length = b2.length)
    (agree : ∀ q < 64 * b.length, b.get q = b2.get q) : b = b2 := by
  apply List.ext_getElem length
  intro i bound bound2
  apply UInt64.eq_of_toBitVec_eq
  ext j
  have := agree (64 * i + j) (by omega)
  have major : (64 * i + j) / 64 = i := by omega
  have minor : (64 * i + j) % 64 = j := by omega
  simpa [get_eq,major,minor,List.getElem?_eq_getElem bound,List.getElem?_eq_getElem bound2] using this

theorem equals_iff (b b2 : Bitset) : b.equals b2 = true ↔ b = b2 := by
  constructor
  · simp only [equals,Bool.and_eq_true,decide_eq_true_eq,List.all_eq_true,List.mem_range,beq_iff_eq]
    rintro ⟨length,agree⟩
    exact List.ext_getElem? fun i => if bound : i < b.length then agree i bound
      else by rw [List.getElem?_eq_none (by omega),List.getElem?_eq_none (by omega)]
  · rintro rfl
    simp [equals]

/-! ### Sets of positions -/

/-- `b`, of `size` words, holds exactly the positions of `L`. -/
structure Represents (b : Bitset) (size : Nat) (L : Finset Nat) : Prop where
  length : b.length = size
  bounded : ∀ q ∈ L, q < 64 * size
  get : ∀ q < 64 * size, b.get q = some (decide (q ∈ L))

theorem represents_newBitset (bits : Nat) :
    Represents (newBitset bits) (newBitset bits).length ∅ :=
  ⟨rfl,by simp,fun q bound => by simpa using get_newBitset bits q bound⟩

theorem Represents.set {b : Bitset} {size : Nat} {L : Finset Nat} (rep : Represents b size L)
    {pos : Nat} (bound : pos < 64 * size) :
    ∃ b', b.set pos = some b' ∧ Represents b' size (insert pos L) := by
  obtain ⟨b',success⟩ := Option.isSome_iff_exists.1 (set_isSome (rep.length ▸ bound))
  refine ⟨b',success,(length_of_set success).trans rep.length,?_,fun q lt => ?_⟩
  · simpa [bound] using rep.bounded
  · simp [get_of_set success,rep.get q lt,Bool.or_comm]

theorem Represents.clear {b : Bitset} {size : Nat} {L : Finset Nat} (rep : Represents b size L)
    {pos : Nat} (bound : pos < 64 * size) :
    ∃ b', b.clear pos = some b' ∧ Represents b' size (L.erase pos) := by
  obtain ⟨b',success⟩ := Option.isSome_iff_exists.1 (clear_isSome (rep.length ▸ bound))
  refine ⟨b',success,(length_of_clear success).trans rep.length,
    fun q mem => rep.bounded q (Finset.mem_of_mem_erase mem),fun q lt => ?_⟩
  simp [get_of_clear success,rep.get q lt,Bool.and_comm]

theorem Represents.eq_iff {b b2 : Bitset} {size : Nat} {L L2 : Finset Nat}
    (rep : Represents b size L) (rep2 : Represents b2 size L2) : b = b2 ↔ L = L2 := by
  constructor
  · rintro rfl
    ext q
    by_cases bound : q < 64 * size
    · simpa [rep.get q bound] using rep2.get q bound
    · exact ⟨fun mem => absurd (rep.bounded q mem) bound,fun mem => absurd (rep2.bounded q mem) bound⟩
  · rintro rfl
    exact ext_get (rep.length.trans rep2.length.symm) fun q bound => by
      rw [rep.get q (rep.length ▸ bound),rep2.get q (rep.length ▸ bound)]

end Bitset

end Sentinel.Linearizability
