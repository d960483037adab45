import Evk.ConnectionTable
import Evk.TextCodec
import Evk.TimerQueue

/-! Times at the edge of the program: what `gettimeofday` says, `timeval`s, and the text of
a `Timestamp`. Divisions round toward zero, so that before the epoch both parts of a time
are negative. -/
namespace Evk

structure TimeVal where
  tvSec : Int
  tvUsec : Int
  deriving DecidableEq, Repr

/-- The value a `uint64_t` keeps of a result. -/
def uint64 (n : Int) : Int := n % 2^64

/-- The clock of the kernel, in microseconds; `tv` is what it says. -/
def utcmicrosecond (tv : TimeVal) : Int := uint64 (uint64 (uint64 tv.tvSec * 1000000) + tv.tvUsec)

def timevalconv (timeUs : Int) : TimeVal := ⟨(int64 timeUs).tdiv 1000000,(int64 timeUs).tmod 1000000⟩

namespace Timestamp

def ofTimeVal (t : TimeVal) : Int :=
  int64 (int64 (t.tvSec * Duration.kSecond) + int64 (t.tvUsec * Duration.kMicrosecond))

def now (tv : TimeVal) : Int := int64 (uint64 (utcmicrosecond tv * Duration.kMicrosecond))

def timeVal (ns : Int) : TimeVal := ⟨ns.tdiv Duration.kSecond,(ns.tmod Duration.kSecond).tdiv Duration.kMicrosecond⟩

def unix (ns : Int) : Int := ns.tdiv Duration.kSecond

def unixMicro (ns : Int) : Int := ns.tdiv Duration.kMicrosecond

end Timestamp

/-- Digits, with zeros before them up to a width. -/
def padded (width n : Nat) : List Char := List.replicate (width - (Nat.toDigits 10 n).length) '0' ++ Nat.toDigits 10 n

/-- `%06d`: the sign is part of the width. -/
def zeroPadded (n : Int) : List Char := if n < 0 then '-' :: padded 5 n.natAbs else padded 6 n.natAbs

/-- In a buffer of 32 zeros, of which the last is kept. -/
def Timestamp.toString (ns : Int) : List Char :=
  let seconds := ns.tdiv Duration.kSecond
  let microseconds := (ns.tmod Duration.kSecond).tdiv Duration.kMicrosecond
  snprintf 31 (decimal seconds ++ '.' :: zeroPadded microseconds)

/-! ### Seconds, microseconds and the rest -/

/-- Division that rounds toward zero. -/
theorem tdiv_parts (t : Int) {k : Int} (positive : 0 < k) : t.tmod k + t.tdiv k * k = t ∧
    (0 ≤ t → 0 ≤ t.tdiv k ∧ 0 ≤ t.tmod k ∧ t.tmod k < k) ∧ (t ≤ 0 → t.tdiv k ≤ 0 ∧ -k < t.tmod k ∧ t.tmod k ≤ 0) := by
  refine ⟨Int.tmod_add_tdiv_mul t k,fun after => ?_,fun before => ?_⟩
  · exact ⟨Int.tdiv_nonneg after positive.le,Int.tmod_nonneg k after,Int.tmod_lt_of_pos t positive⟩
  · have turned : 0 ≤ -t := by omega
    have quotient := Int.tdiv_nonneg turned positive.le
    have remainder := Int.tmod_nonneg k turned
    have small := Int.tmod_lt_of_pos (-t) positive
    rw [Int.neg_tdiv] at quotient
    rw [Int.neg_tmod] at remainder small
    exact ⟨by omega,by omega,by omega⟩

namespace Timestamp

/-- The parts of a time, all of one sign. -/
structure Parts (t sec usec nsec : Int) : Prop where
  sum : t = sec * 1000000000 + usec * 1000 + nsec
  after : 0 ≤ t → 0 ≤ sec ∧ 0 ≤ usec ∧ usec < 1000000 ∧ 0 ≤ nsec ∧ nsec < 1000
  before : t ≤ 0 → sec ≤ 0 ∧ -1000000 < usec ∧ usec ≤ 0 ∧ -1000 < nsec ∧ nsec ≤ 0

theorem Parts.unique (parts : Parts t sec usec nsec) (parts' : Parts t sec' usec' nsec') :
    sec = sec' ∧ usec = usec' ∧ nsec = nsec' := by
  obtain ⟨sum,after,before⟩ := parts
  obtain ⟨sum',after',before'⟩ := parts'
  omega

theorem parts_timeVal (t : Int) : Parts t (timeVal t).tvSec (timeVal t).tvUsec ((t.tmod 1000000000).tmod 1000) := by
  have whole := tdiv_parts t (k := 1000000000) (by decide)
  have fraction := tdiv_parts (t.tmod 1000000000) (k := 1000) (by decide)
  simp only [timeVal,Duration.kSecond,Duration.kMicrosecond]
  norm_num only
  constructor
  · omega
  · omega
  · omega

theorem parts_unixMicro (t : Int) : Parts t ((unixMicro t).tdiv 1000000)
    ((unixMicro t).tmod 1000000) (t.tmod 1000) := by
  have whole := tdiv_parts t (k := 1000) (by decide)
  have micros := tdiv_parts (t.tdiv 1000) (k := 1000000) (by decide)
  simp only [unixMicro,Duration.kMicrosecond]
  constructor
  · omega
  · omega
  · omega

theorem timeVal_eq (t : Int) : timeVal t = ⟨(unixMicro t).tdiv 1000000,(unixMicro t).tmod 1000000⟩ := by
  obtain ⟨sec,usec,-⟩ := (parts_timeVal t).unique (parts_unixMicro t)
  exact TimeVal.mk.injEq .. ▸ ⟨sec,usec⟩

theorem timeVal_eq_iff (t u : Int) : timeVal t = timeVal u ↔ unixMicro t = unixMicro u := by
  constructor
  · intro same
    rw [timeVal_eq,timeVal_eq,TimeVal.mk.injEq] at same
    have first := Int.tmod_add_tdiv_mul (unixMicro t) 1000000
    have second := Int.tmod_add_tdiv_mul (unixMicro u) 1000000
    omega
  · intro same
    rw [timeVal_eq,timeVal_eq,same]

theorem timeVal_of_parts (parts : Parts t sec usec nsec) : timeVal t = ⟨sec,usec⟩ := by
  obtain ⟨first,second,-⟩ := (parts_timeVal t).unique parts
  exact TimeVal.mk.injEq .. ▸ ⟨first,second⟩

/-- Nanoseconds that fit, fit in parts. -/
theorem ofTimeVal_eq {v : TimeVal} (sec : Int64Range (v.tvSec * 1000000000)) (usec : Int64Range (v.tvUsec * 1000))
    (sum : Int64Range (v.tvSec * 1000000000 + v.tvUsec * 1000)) :
      ofTimeVal v = v.tvSec * 1000000000 + v.tvUsec * 1000 := by
  simp only [ofTimeVal,Duration.kSecond,Duration.kMicrosecond]
  norm_num only
  rw [int64_of_range sec,int64_of_range usec,int64_of_range sum]

end Timestamp

/-- What `gettimeofday` says, until nanoseconds since the epoch no longer fit. -/
structure TimeVal.Normal (tv : TimeVal) : Prop where
  sec : 0 ≤ tv.tvSec
  usec : 0 ≤ tv.tvUsec ∧ tv.tvUsec < 1000000
  range : tv.tvSec * 1000000000 + tv.tvUsec * 1000 < 2^63

namespace Timestamp

theorem utcmicrosecond_eq {tv : TimeVal} (normal : tv.Normal) : utcmicrosecond tv = tv.tvSec * 1000000 + tv.tvUsec := by
  obtain ⟨sec,usec,range⟩ := normal
  simp only [utcmicrosecond,uint64]
  omega

/-- The clock is read to the microsecond and nothing is lost on the way: through a
`Timestamp` and back one gets the `timeval` the kernel gave. -/
theorem clock_round_trip (tv : TimeVal) (normal : tv.Normal) :
    now tv = ofTimeVal tv ∧ timeVal (now tv) = tv ∧ unix (now tv) = tv.tvSec ∧ unixMicro (now tv) = utcmicrosecond tv ∧
      timevalconv (utcmicrosecond tv) = tv ∧ (isValid (now tv) = true ↔ tv ≠ ⟨0,0⟩) := by
  have micros := utcmicrosecond_eq normal
  obtain ⟨sec,usec,range⟩ := normal
  have ns : now tv = tv.tvSec * 1000000000 + tv.tvUsec * 1000 := by
    simp only [now,micros,Duration.kMicrosecond,uint64]
    rw [Int.emod_eq_of_lt (by omega) (by omega),int64_of_range ⟨by omega,by omega⟩]
    ring
  have parts : Parts (now tv) tv.tvSec tv.tvUsec 0 := ⟨by omega,by omega,by omega⟩
  have split := timeVal_of_parts parts
  have whole := parts_unixMicro (now tv)
  refine ⟨?_,split,congrArg TimeVal.tvSec split,?_,?_,?_⟩
  · rw [ns,ofTimeVal_eq ⟨by omega,by omega⟩ ⟨by omega,by omega⟩ ⟨by omega,by omega⟩]
  · obtain ⟨first,second,-⟩ := whole.unique parts
    have sum := Int.tmod_add_tdiv_mul (unixMicro (now tv)) 1000000
    omega
  · have cut := tdiv_parts (tv.tvSec * 1000000 + tv.tvUsec) (k := 1000000) (by decide)
    rw [micros,timevalconv,int64_of_range ⟨by omega,by omega⟩]
    exact TimeVal.mk.injEq .. ▸ ⟨by omega,by omega⟩
  · simp only [isValid,decide_eq_true_eq,ne_eq,ns]
    constructor
    · rintro positive rfl
      simp at positive
    · intro some
      by_contra none
      exact some (TimeVal.mk.injEq .. ▸ ⟨by omega,by omega⟩)

/-- The first moment the model's clock can show that is not the epoch. -/
theorem clock_round_trip_first : timeVal (now ⟨0,1⟩) = ⟨0,1⟩ ∧ isValid (now ⟨0,1⟩) = true :=
  have read := clock_round_trip ⟨0,1⟩ ⟨by decide,by decide,by decide⟩
  ⟨read.2.1,read.2.2.2.2.2.mpr (by decide)⟩

/-- A `timeval` keeps of any time the whole microseconds, cut off toward the epoch, also
before it; no step of the way back overflows. Two times have the same `timeval` just when
they have the same microseconds, and earlier ones do not have a later `timeval`. -/
theorem timeVal_keeps_micros (t : Int) (range : Int64Range t) :
    Int64Range ((timeVal t).tvSec * Duration.kSecond) ∧ Int64Range ((timeVal t).tvUsec * Duration.kMicrosecond) ∧
    Int64Range ((timeVal t).tvSec * Duration.kSecond + (timeVal t).tvUsec * Duration.kMicrosecond) ∧
    ofTimeVal (timeVal t) = t - t.tmod 1000 ∧ |t - ofTimeVal (timeVal t)| < 1000 ∧
      timeVal (ofTimeVal (timeVal t)) = timeVal t ∧
    (∀ u, timeVal t = timeVal u ↔ unixMicro t = unixMicro u) ∧
    ∀ u, t ≤ u → (timeVal t).tvSec < (timeVal u).tvSec ∨
      (timeVal t).tvSec = (timeVal u).tvSec ∧ (timeVal t).tvUsec ≤ (timeVal u).tvUsec := by
  obtain ⟨low,high⟩ := range
  have parts := parts_timeVal t
  have rest := ((parts_timeVal t).unique (parts_unixMicro t)).2.2
  obtain ⟨sum,after,before⟩ := parts
  have seconds : Int64Range ((timeVal t).tvSec * 1000000000) := ⟨by omega,by omega⟩
  have micros : Int64Range ((timeVal t).tvUsec * 1000) := ⟨by omega,by omega⟩
  have total : Int64Range ((timeVal t).tvSec * 1000000000 + (timeVal t).tvUsec * 1000) := ⟨by omega,by omega⟩
  have back : ofTimeVal (timeVal t) = t - t.tmod 1000 := by
    rw [ofTimeVal_eq seconds micros total]
    omega
  have cut : Parts (t - t.tmod 1000) (timeVal t).tvSec (timeVal t).tvUsec 0 := ⟨by omega,by omega,by omega⟩
  refine ⟨seconds,micros,total,back,?_,?_,timeVal_eq_iff t,fun u later => ?_⟩
  · rw [back,abs_lt]
    omega
  · rw [back]
    exact timeVal_of_parts cut
  · obtain ⟨sum',after',before'⟩ := parts_timeVal u
    omega

/-- Half a second before the epoch. -/
theorem timeVal_keeps_micros_before : timeVal (-500000001) = ⟨0,-500000⟩ ∧
    ofTimeVal (timeVal (-500000001)) = -500000000 :=
  ⟨by decide,(timeVal_keeps_micros (-500000001) ⟨by decide,by decide⟩).2.2.2.1⟩

/-! ### Text -/

end Timestamp

theorem isDigit_padded (among : x ∈ padded width n) : x.isDigit = true := by
  rcases List.mem_append.mp among with zero | digit
  · rw [(List.mem_replicate.mp zero).2]
    decide
  · exact Nat.isDigit_of_mem_toDigits (by decide) (by decide) digit

theorem length_padded (width : Nat) {n digits : Nat} (some : 0 < digits) (small : n < 10^digits) :
    (padded width n).length ≤ max width digits := by
  have short := Nat.toDigits_length 10 n digits some small
  simp only [padded,List.length_append,List.length_replicate]
  omega

theorem ofDigitChars_padded (width n : Nat) : Nat.ofDigitChars 10 (padded width n) 0 = n := by
  have zeros (k : Nat) : Nat.ofDigitChars 10 (List.replicate k '0') 0 = 0 := by simp
  rw [padded,Nat.ofDigitChars_append,zeros,Nat.ofDigitChars_toDigits (by decide) (by decide)]

/-- A number with its sign is read in one way only. -/
theorem signed_inj {m n : Int} (same : (if m < 0 then '-' :: padded w m.natAbs else padded w' m.natAbs) =
    if n < 0 then '-' :: padded w n.natAbs else padded w' n.natAbs) : m = n := by
  have value {k k' v v' : Nat} (digits : padded k v = padded k' v') : v = v' := by
    rw [← ofDigitChars_padded k v,digits,ofDigitChars_padded]
  have sign {k v : Nat} {text : List Char} : '-' :: text ≠ padded k v := fun signed => by
    have digit := isDigit_padded (signed ▸ List.mem_cons_self)
    exact absurd digit (by decide)
  split at same
  · split at same
    · have magnitude := value (List.cons.inj same).2
      omega
    · exact absurd same sign
  · split at same
    · exact absurd same.symm sign
    · have magnitude := value same
      omega

theorem decimal_eq_padded (n : Int) : decimal n = if n < 0 then '-' :: padded 0 n.natAbs else padded 0 n.natAbs := by
  simp [decimal,padded]

theorem dot_not_mem_zeroPadded (n : Int) : '.' ∉ zeroPadded n := by
  have digits {k v : Nat} : '.' ∉ padded k v := fun among => absurd (isDigit_padded among) (by decide)
  rw [zeroPadded]
  split
  · exact List.not_mem_cons_of_ne_of_not_mem (by decide) digits
  · exact digits

namespace Timestamp

/-- Seconds take ten digits and a sign, microseconds six and a sign. -/
theorem length_text (range : Int64Range t) :
    (decimal (timeVal t).tvSec ++ '.' :: zeroPadded (timeVal t).tvUsec).length ≤ 19 := by
  obtain ⟨low,high⟩ := range
  obtain ⟨sum,after,before⟩ := parts_timeVal t
  have sec : (decimal (timeVal t).tvSec).length ≤ 11 := by
    have digits := length_padded 0 (show 0 < 10 by decide) (show (timeVal t).tvSec.natAbs < _ by omega)
    rw [decimal_eq_padded]
    split
    · rw [List.length_cons]
      omega
    · omega
  have usec : (zeroPadded (timeVal t).tvUsec).length ≤ 7 := by
    have digits (width : Nat) := length_padded width (show 0 < 6 by decide)
      (show (timeVal t).tvUsec.natAbs < _ by omega)
    rw [zeroPadded]
    split
    · have := digits 5
      rw [List.length_cons]
      omega
    · have := digits 6
      omega
  simp only [List.length_append,List.length_cons]
  omega

theorem toString_eq (range : Int64Range t) :
    toString t = decimal (timeVal t).tvSec ++ '.' :: zeroPadded (timeVal t).tvUsec := by
  have short := length_text range
  exact List.take_of_length_le (short.trans (by decide))

/-- The text of every time fits its buffer, and two times have the same text just when they
are the same to the microsecond. -/
theorem text_tells_micros (t u : Int) (range : Int64Range t) (range' : Int64Range u) :
    toString t = decimal (timeVal t).tvSec ++ '.' :: zeroPadded (timeVal t).tvUsec ∧ (toString t).length ≤ 19 ∧
    (toString t = toString u ↔ unixMicro t = unixMicro u) := by
  have short := length_text range
  refine ⟨toString_eq range,by rwa [toString_eq range],?_⟩
  rw [toString_eq range,toString_eq range',← timeVal_eq_iff]
  constructor
  · intro same
    obtain ⟨secs,usecs⟩ := List.append_cons_inj_of_not_mem_right (dot_not_mem_zeroPadded _)
      (dot_not_mem_zeroPadded _) same
    rw [decimal_eq_padded,decimal_eq_padded] at secs
    exact TimeVal.mk.injEq .. ▸ ⟨signed_inj secs,signed_inj usecs⟩
  · intro same
    rw [same]

/-- Before the epoch the text is not a decimal number. -/
theorem text_tells_micros_before : toString (-500000001) = "0.-500000".toList ∧
    toString (-500000001) = toString (-500000002) :=
  ⟨by decide,(text_tells_micros (-500000001) (-500000002)
    ⟨by decide,by decide⟩ ⟨by decide,by decide⟩).2.2.mpr (by decide)⟩

end Timestamp
end Evk
