import Mathlib.Data.List.GetD
import CppChat.Foundation.LittleEndian
import CppChat.Resources.Files
import CppChat.Wire.Handlers

/-! # Wave files

The header that a client writes, the check that a client and the resource server make of it,
and the duration that the chat server gives for the size of a file, each in the integer types
of the source.
-/
namespace CppChat.Media
open Foundation
open Resources (Bytes ascii)

def waveHeaderBytes : UInt32 := 44
def pcmBytesPerSecond : UInt32 := 32000
def minPcmBytes : UInt32 := pcmBytesPerSecond
def maxPcmBytes : UInt32 := pcmBytesPerSecond * 60

def readLittle (bytes : Bytes) (offset count : ℕ) : UInt32 :=
  (List.range count).foldl
    (fun value i => value ||| (bytes.getD (offset + i) 0).toUInt32 <<< UInt32.ofNat (8 * i)) 0

def waveDurationMs (header : Bytes) (totalBytes : UInt64) : Int32 :=
  if header.length < waveHeaderBytes.toNat ∨
      totalBytes < (waveHeaderBytes + minPcmBytes).toUInt64 ∨
      (waveHeaderBytes + maxPcmBytes).toUInt64 < totalBytes ∨
      (totalBytes - waveHeaderBytes.toUInt64) % 2 ≠ 0 then 0
  else if header.take 4 ≠ ascii "RIFF" ∨ (readLittle header 4 4).toUInt64 ≠ totalBytes - 8 ∨
      (header.drop 8).take 8 ≠ ascii "WAVEfmt " ∨ readLittle header 16 4 ≠ 16 ∨
      readLittle header 20 2 ≠ 1 ∨ readLittle header 22 2 ≠ 1 ∨ readLittle header 24 4 ≠ 16000 ∨
      readLittle header 28 4 ≠ pcmBytesPerSecond ∨ readLittle header 32 2 ≠ 2 ∨
      readLittle header 34 2 ≠ 16 ∨ (header.drop 36).take 4 ≠ ascii "data" ∨
      (readLittle header 40 4).toUInt64 ≠ totalBytes - waveHeaderBytes.toUInt64 then 0
  else ((totalBytes - waveHeaderBytes.toUInt64) * 1000 / pcmBytesPerSecond.toUInt64).toUInt32.toInt32

/-- The `write` of the header. -/
def write (header : Bytes) (offset : ℕ) (value : UInt32) (count : ℕ) : Bytes :=
  (List.range count).foldl
    (fun header i => header.set (offset + i) ((value >>> UInt32.ofNat (8 * i)) &&& 255).toUInt8)
    header

/-- `std::string::replace` by a text of the same length. -/
def replace (header : Bytes) (offset : ℕ) (text : Bytes) : Bytes :=
  header.take offset ++ text ++ header.drop (offset + text.length)

def waveHeader (pcmBytes : UInt32) : Bytes :=
  if pcmBytes < minPcmBytes ∨ maxPcmBytes < pcmBytes ∨ pcmBytes % 2 ≠ 0 then []
  else
    let header := List.replicate waveHeaderBytes.toNat 0
    let header := replace header 0 (ascii "RIFF")
    let header := write header 4 (pcmBytes + 36) 4
    let header := replace header 8 (ascii "WAVEfmt ")
    let header := write header 16 16 4
    let header := write header 20 1 2
    let header := write header 22 1 2
    let header := write header 24 16000 4
    let header := write header 28 pcmBytesPerSecond 4
    let header := write header 32 2 2
    let header := write header 34 16 2
    let header := replace header 36 (ascii "data")
    write header 40 pcmBytes 4

/-- The members of a message that `PresentMessage` reads or writes. -/
structure Message where
  msgType : Int32
  content : String
  msgContent : String
  mediaSize : UInt64
  mediaFormat : Option String
  durationMs : Option UInt64
  deriving DecidableEq

def presentMessage (m : Message) (voiceMessages fileMessages : Bool) : Message :=
  if m.msgType = 2 ∧ ¬ fileMessages then
    { m with
      msgType := 0, mediaSize := 0
      content := "[文件消息] 请升级客户端以下载", msgContent := "[文件消息] 请升级客户端以下载" }
  else if m.msgType ≠ 3 then m
  else if ¬ voiceMessages then
    { m with
      msgType := 0, mediaSize := 0
      content := "[语音消息] 请升级客户端以收听", msgContent := "[语音消息] 请升级客户端以收听" }
  else { m with
    mediaFormat := some "wav/pcm_s16le/16000/mono"
    durationMs := some (if waveHeaderBytes.toUInt64 ≤ m.mediaSize then
      (m.mediaSize - waveHeaderBytes.toUInt64) * 1000 / pcmBytesPerSecond.toUInt64 else 0) }

/-! ## The fixed widths are wide enough -/

theorem readLittle_succ (bytes : Bytes) (offset n : ℕ) : readLittle bytes offset (n + 1) =
    readLittle bytes offset n |||
      (bytes.getD (offset + n) 0).toUInt32 <<< UInt32.ofNat (8 * n) := by
  simp only [readLittle, List.range_succ, List.foldl_append, List.foldl_cons, List.foldl_nil]

/-- A byte goes in above the bytes that were read. -/
theorem toNat_or_shift {value : UInt32} {b : UInt8} {n : ℕ} (hn : n < 4)
    (hvalue : value.toNat < 256 ^ n) :
    (value ||| b.toUInt32 <<< UInt32.ofNat (8 * n)).toNat = value.toNat + 256 ^ n * b.toNat := by
  have hb := b.toNat_lt
  have hpow : (256 : ℕ) ^ n = 2 ^ (8 * n) := by
    rw [Nat.pow_mul]
  have hshift : (UInt32.ofNat (8 * n)).toNat = 8 * n := by
    rw [UInt32.toNat_ofNat', Nat.mod_eq_of_lt (by omega)]
  have hsmall : b.toNat * 2 ^ (8 * n) < 2 ^ 32 := by
    have hle : (2 : ℕ) ^ (8 * n) ≤ 2 ^ 24 := Nat.pow_le_pow_right (by decide) (by omega)
    calc b.toNat * 2 ^ (8 * n) ≤ 255 * 2 ^ 24 := Nat.mul_le_mul (by omega) hle
      _ < 2 ^ 32 := by decide
  rw [hpow] at hvalue ⊢
  rw [UInt32.toNat_or, UInt32.toNat_shiftLeft, hshift, UInt8.toNat_toUInt32,
    Nat.mod_eq_of_lt (by omega : 8 * n < 32), Nat.shiftLeft_eq, Nat.mod_eq_of_lt hsmall,
    Nat.mul_comm b.toNat, Nat.or_comm, ← Nat.two_pow_add_eq_or_of_lt hvalue, Nat.add_comm]

theorem readLittle_toNat {bytes : Bytes} {offset count : ℕ} (hcount : count ≤ 4)
    (hbytes : offset + count ≤ bytes.length) :
    (readLittle bytes offset count).toNat = Resources.readLittle bytes offset count := by
  change _ = ofLittle ((bytes.drop offset).take count)
  induction count with
  | zero => rfl
  | succ n ih =>
    have ih := ih (by omega) (by omega)
    have hlength : ((bytes.drop offset).take n).length = n := by
      rw [List.length_take, List.length_drop]
      omega
    have hlt := ofLittle_lt ((bytes.drop offset).take n)
    have hn : n < (bytes.drop offset).length := by
      rw [List.length_drop]
      omega
    rw [hlength] at hlt
    rw [readLittle_succ, toNat_or_shift (by omega) (ih ▸ hlt), ih,
      List.take_succ_eq_append_getElem hn, ofLittle_snoc, hlength, List.getElem_drop,
      List.getD_eq_getElem _ _ (by omega)]

/-- The duration of an admitted size fits each type on the way. -/
theorem duration_toNat {totalBytes : UInt64} (hmin : 44 ≤ totalBytes.toNat)
    (hmax : totalBytes.toNat ≤ 1920044) :
    ((totalBytes - waveHeaderBytes.toUInt64) * 1000 / pcmBytesPerSecond.toUInt64).toNat =
      (totalBytes.toNat - 44) * 1000 / 32000 := by
  have hsub : (totalBytes - waveHeaderBytes.toUInt64).toNat = totalBytes.toNat - 44 :=
    UInt64.toNat_sub_of_le _ _ (UInt64.le_iff_toNat_le.mpr hmin)
  have hrate : pcmBytesPerSecond.toUInt64.toNat = 32000 := rfl
  have hthousand : (1000 : UInt64).toNat = 1000 := rfl
  rw [UInt64.toNat_div, UInt64.toNat_mul, hsub, hrate, hthousand, Nat.mod_eq_of_lt (by omega)]

/-- The check that counts in natural numbers is the one of the source. -/
theorem waveDurationMs_toInt (header : Bytes) (totalBytes : UInt64) :
    (waveDurationMs header totalBytes).toInt =
      Resources.waveDurationMs header totalBytes.toNat := by
  have hmin : (waveHeaderBytes + minPcmBytes).toUInt64.toNat = 32044 := rfl
  have hmax : (waveHeaderBytes + maxPcmBytes).toUInt64.toNat = 1920044 := rfl
  have hsub : ∀ k : UInt64, k.toNat ≤ totalBytes.toNat →
      (totalBytes - k).toNat = totalBytes.toNat - k.toNat := fun k hk =>
    UInt64.toNat_sub_of_le _ _ (UInt64.le_iff_toNat_le.mpr hk)
  have hguard : (header.length < waveHeaderBytes.toNat ∨
      totalBytes < (waveHeaderBytes + minPcmBytes).toUInt64 ∨
      (waveHeaderBytes + maxPcmBytes).toUInt64 < totalBytes ∨
      (totalBytes - waveHeaderBytes.toUInt64) % 2 ≠ 0) ↔
      header.length < 44 ∨ totalBytes.toNat < 32044 ∨ 1920044 < totalBytes.toNat ∨
        (totalBytes.toNat - 44) % 2 ≠ 0 := by
    rw [UInt64.lt_iff_toNat_lt, UInt64.lt_iff_toNat_lt, hmin, hmax]
    refine or_congr_right ?_
    by_cases hlow : totalBytes.toNat < 32044
    · simp [hlow]
    · have heven : ((totalBytes - waveHeaderBytes.toUInt64) % 2).toNat =
          (totalBytes.toNat - 44) % 2 := by
        rw [UInt64.toNat_mod,
          hsub waveHeaderBytes.toUInt64 (show 44 ≤ totalBytes.toNat by omega)]
        rfl
      rw [ne_eq, ← UInt64.toNat_inj, heven]
      rfl
  unfold waveDurationMs Resources.waveDurationMs
  by_cases hsize : header.length < 44 ∨ totalBytes.toNat < 32044 ∨ 1920044 < totalBytes.toNat ∨
      (totalBytes.toNat - 44) % 2 ≠ 0
  · rw [if_pos (hguard.mpr hsize)]
    exact (congrArg Nat.cast (if_pos hsize)).symm
  · rw [if_neg (mt hguard.mp hsize)]
    refine Eq.trans ?_ (congrArg Nat.cast (if_neg hsize)).symm
    have hlow : 44 ≤ totalBytes.toNat := by omega
    have hhigh : totalBytes.toNat ≤ 1920044 := by omega
    have hread : ∀ offset count, offset + count ≤ 44 → count ≤ 4 →
        (readLittle header offset count).toNat = Resources.readLittle header offset count :=
      fun offset count hoffset hcount => readLittle_toNat hcount (by omega)
    simp only [ne_eq, ← UInt64.toNat_inj, ← UInt32.toNat_inj, UInt32.toNat_toUInt64,
      hsub 8 (show 8 ≤ totalBytes.toNat by omega), hsub waveHeaderBytes.toUInt64 hlow,
      hread 4 4 (by decide) (by decide), hread 16 4 (by decide) (by decide),
      hread 20 2 (by decide) (by decide), hread 22 2 (by decide) (by decide),
      hread 24 4 (by decide) (by decide), hread 28 4 (by decide) (by decide),
      hread 32 2 (by decide) (by decide), hread 34 2 (by decide) (by decide),
      hread 40 4 (by decide) (by decide)]
    split
    next h => exact (congrArg Nat.cast (if_pos h)).symm
    next h =>
      refine Eq.trans ?_ (congrArg Nat.cast (if_neg h)).symm
      have hduration := duration_toNat hlow hhigh
      generalize (totalBytes - waveHeaderBytes.toUInt64) * 1000 / pcmBytesPerSecond.toUInt64 = d at *
      have hd : d.toUInt32.toInt32 = Int32.ofNat d.toNat := by
        rw [← UInt32.toInt32_ofNat', ← UInt64.toUInt32_ofNat', UInt64.ofNat_toNat]
      rw [hd, Int32.toInt_ofNat_of_lt (by omega), hduration]
      rfl

/-! ## The header -/

/-- The fields of the header for `n` bytes of samples. -/
def headerParts (n : ℕ) : List Bytes :=
  [ascii "RIFF", little 4 (n + 36), ascii "WAVEfmt ", little 4 16, little 2 1, little 2 1,
    little 4 16000, little 4 32000, little 2 2, little 2 16, ascii "data", little 4 n]

theorem length_headerParts (n : ℕ) : (headerParts n).flatten.length = 44 := by
  have hriff : (ascii "RIFF").length = 4 := rfl
  have hfmt : (ascii "WAVEfmt ").length = 8 := rfl
  have hdata : (ascii "data").length = 4 := rfl
  simp only [headerParts, List.flatten_cons, List.flatten_nil, List.length_append, List.length_nil,
    length_little, hriff, hfmt, hdata]

/-- The bytes that `write` puts in place. -/
def written (value : UInt32) (count : ℕ) : Bytes :=
  (List.range count).map fun i => ((value >>> UInt32.ofNat (8 * i)) &&& 255).toUInt8

theorem written_byte (value : UInt32) {i : ℕ} (hi : i < 4) :
    ((value >>> UInt32.ofNat (8 * i)) &&& 255).toUInt8 = UInt8.ofNat (value.toNat / 256 ^ i) := by
  have hpow : (256 : ℕ) ^ i = 2 ^ (8 * i) := by
    rw [Nat.pow_mul]
  have hshift : (UInt32.ofNat (8 * i)).toNat = 8 * i := by
    rw [UInt32.toNat_ofNat', Nat.mod_eq_of_lt (by omega)]
  have hmask : (255 : UInt32).toNat = 2 ^ 8 - 1 := rfl
  rw [← UInt8.toNat_inj, UInt32.toNat_toUInt8, UInt32.toNat_and, UInt32.toNat_shiftRight, hshift,
    hmask, Nat.and_two_pow_sub_one_eq_mod, Nat.mod_mod, UInt8.toNat_ofNat', hpow,
    Nat.mod_eq_of_lt (by omega : 8 * i < 32), Nat.shiftRight_eq_div_pow]

theorem written_eq (value : UInt32) {count : ℕ} (hcount : count ≤ 4) :
    written value count = little count value.toNat := by
  have hlittle : ∀ v, little count v = (List.range count).map fun i => UInt8.ofNat (v / 256 ^ i) := by
    clear hcount
    induction count with
    | zero => exact fun v => rfl
    | succ n ih =>
      intro v
      rw [little, ih, List.range_succ_eq_map, List.map_cons, List.map_map]
      simp only [Function.comp_def, Nat.pow_succ', Nat.div_div_eq_div_mul, Nat.pow_zero, Nat.div_one]
  rw [hlittle, written]
  refine List.map_congr_left fun i hi => written_byte value ?_
  have := List.mem_range.mp hi
  omega

theorem length_written (value : UInt32) (count : ℕ) : (written value count).length = count := by
  rw [written, List.length_map, List.length_range]

/-- A field is written behind the ones before it. -/
theorem write_next {header before : Bytes} {offset : ℕ} (value : UInt32) (count rest : ℕ)
    (h : header = before ++ List.replicate (rest + count) 0) (hoffset : before.length = offset) :
    write header offset value count =
      (before ++ written value count) ++ List.replicate rest 0 := by
  subst h
  induction count generalizing rest with
  | zero => simp [write, written]
  | succ n ih =>
    have hlength : (before ++ written value n).length = offset + n := by
      rw [List.length_append, length_written, hoffset]
    have hwrite : write (before ++ List.replicate (rest + (n + 1)) 0) offset value (n + 1) =
        (write (before ++ List.replicate (rest + 1 + n) 0) offset value n).set (offset + n)
          ((value >>> UInt32.ofNat (8 * n)) &&& 255).toUInt8 := by
      rw [write, write, List.range_succ, List.foldl_append, Nat.add_right_comm, Nat.add_assoc]
      rfl
    rw [hwrite, ih, List.set_append_right (offset + n) _ (by omega), hlength, Nat.sub_self,
      List.replicate_succ, List.set_cons_zero]
    simp [written, List.range_succ]

theorem replace_next {header before : Bytes} {offset : ℕ} (text : Bytes) (rest : ℕ)
    (h : header = before ++ List.replicate (rest + text.length) 0)
    (hoffset : before.length = offset) :
    replace header offset text = (before ++ text) ++ List.replicate rest 0 := by
  rw [h, replace, ← hoffset, List.take_left, List.drop_append]
  simp

theorem waveHeader_eq {pcmBytes : UInt32} (hmin : 32000 ≤ pcmBytes.toNat)
    (hmax : pcmBytes.toNat ≤ 1920000) (heven : pcmBytes.toNat % 2 = 0) :
    waveHeader pcmBytes = (headerParts pcmBytes.toNat).flatten := by
  have hguard : ¬ (pcmBytes < minPcmBytes ∨ maxPcmBytes < pcmBytes ∨ pcmBytes % 2 ≠ 0) := by
    have hlow : minPcmBytes.toNat = 32000 := rfl
    have hhigh : maxPcmBytes.toNat = 1920000 := rfl
    have htwo : (pcmBytes % 2).toNat = pcmBytes.toNat % 2 := UInt32.toNat_mod ..
    rw [UInt32.lt_iff_toNat_lt, UInt32.lt_iff_toNat_lt, ne_eq, ← UInt32.toNat_inj, htwo, hlow,
      hhigh, heven]
    simp only [UInt32.toNat_ofNat, Nat.zero_mod, not_true_eq_false, or_false]
    omega
  have hplus : (pcmBytes + 36).toNat = pcmBytes.toNat + 36 := by
    rw [UInt32.toNat_add]
    exact Nat.mod_eq_of_lt (show pcmBytes.toNat + 36 < 2 ^ 32 by omega)
  have h0 : List.replicate waveHeaderBytes.toNat (0 : UInt8) =
      [] ++ List.replicate (40 + (ascii "RIFF").length) 0 := rfl
  have h1 := replace_next _ 40 h0 rfl
  have h2 := write_next (pcmBytes + 36) 4 36 h1 rfl
  have h3 := replace_next (ascii "WAVEfmt ") 28 h2 rfl
  have h4 := write_next 16 4 24 h3 rfl
  have h5 := write_next 1 2 22 h4 rfl
  have h6 := write_next 1 2 20 h5 rfl
  have h7 := write_next 16000 4 16 h6 rfl
  have h8 := write_next pcmBytesPerSecond 4 12 h7 rfl
  have h9 := write_next 2 2 10 h8 rfl
  have h10 := write_next 16 2 8 h9 rfl
  have h11 := replace_next (ascii "data") 4 h10 rfl
  have h12 := write_next pcmBytes 4 0 h11 rfl
  rw [waveHeader, if_neg hguard]
  refine h12.trans ?_
  simp only [written_eq _ (show 4 ≤ 4 by decide), written_eq _ (show 2 ≤ 4 by decide), hplus,
    headerParts, List.nil_append, List.replicate_zero, List.append_nil, List.flatten_cons,
    List.flatten_nil, List.append_assoc]
  rfl

theorem admitted_of_waveHeader {pcmBytes : UInt32} (h : waveHeader pcmBytes ≠ []) :
    32000 ≤ pcmBytes.toNat ∧ pcmBytes.toNat ≤ 1920000 ∧ pcmBytes.toNat % 2 = 0 := by
  by_cases hguard : pcmBytes < minPcmBytes ∨ maxPcmBytes < pcmBytes ∨ pcmBytes % 2 ≠ 0
  · exact absurd (if_pos hguard) h
  · have hlow : minPcmBytes.toNat = 32000 := rfl
    have hhigh : maxPcmBytes.toNat = 1920000 := rfl
    have htwo : (pcmBytes % 2).toNat = pcmBytes.toNat % 2 := UInt32.toNat_mod ..
    rw [UInt32.lt_iff_toNat_lt, UInt32.lt_iff_toNat_lt, ne_eq, ← UInt32.toNat_inj, htwo, hlow,
      hhigh] at hguard
    simp only [UInt32.toNat_ofNat, Nat.zero_mod] at hguard
    omega

/-! ## Agreement -/

/-- A number field of the header has its value exactly when its bytes are those of the value. -/
theorem readLittle_eq_iff {header : Bytes} {offset count v : ℕ}
    (hheader : offset + count ≤ header.length) (hv : v < 256 ^ count) :
    Resources.readLittle header offset count = v ↔
      (header.drop offset).take count = little count v := by
  have hlength : ((header.drop offset).take count).length = count := by
    rw [List.length_take, List.length_drop]
    omega
  have hiff : ofLittle ((header.drop offset).take count) = v ↔ _ :=
    ofLittle_eq_iff (hlength.symm ▸ hv)
  rw [hlength] at hiff
  exact hiff

/-- The fields that the check compares are all bytes of the header. -/
theorem fields_iff {header : Bytes} {n : ℕ} (hheader : 44 ≤ header.length) (hmin : 44 ≤ n)
    (hmax : n ≤ 1920044) :
    ¬ (header.take 4 ≠ ascii "RIFF" ∨ Resources.readLittle header 4 4 ≠ n - 8 ∨
      (header.drop 8).take 8 ≠ ascii "WAVEfmt " ∨ Resources.readLittle header 16 4 ≠ 16 ∨
      Resources.readLittle header 20 2 ≠ 1 ∨ Resources.readLittle header 22 2 ≠ 1 ∨
      Resources.readLittle header 24 4 ≠ 16000 ∨ Resources.readLittle header 28 4 ≠ 32000 ∨
      Resources.readLittle header 32 2 ≠ 2 ∨ Resources.readLittle header 34 2 ≠ 16 ∨
      (header.drop 36).take 4 ≠ ascii "data" ∨ Resources.readLittle header 40 4 ≠ n - 44) ↔
    header.take 44 = (headerParts (n - 44)).flatten := by
  have hriff : (ascii "RIFF").length = 4 := rfl
  have hfmt : (ascii "WAVEfmt ").length = 8 := rfl
  have hdata : (ascii "data").length = 4 := rfl
  have hriffSize : n - 8 = n - 44 + 36 := by omega
  have hparts := @take_flatten_iff _ header (headerParts (n - 44))
  have hfield : ∀ offset v, offset + 4 ≤ 44 → v < 2 ^ 32 →
      (Resources.readLittle header offset 4 = v ↔ (header.drop offset).take 4 = little 4 v) :=
    fun offset v hoffset hv => readLittle_eq_iff (by omega) hv
  have hshort : ∀ offset v, offset + 2 ≤ 44 → v < 2 ^ 16 →
      (Resources.readLittle header offset 2 = v ↔ (header.drop offset).take 2 = little 2 v) :=
    fun offset v hoffset hv => readLittle_eq_iff (by omega) hv
  rw [length_headerParts] at hparts
  rw [hparts]
  simp only [HasParts, headerParts, length_little, hriff, hfmt, hdata, List.drop_drop,
    Nat.reduceAdd, and_true, not_or, ne_eq, not_not, hriffSize,
    hfield 4 (n - 44 + 36) (by decide) (by omega), hfield 16 16 (by decide) (by decide),
    hshort 20 1 (by decide) (by decide), hshort 22 1 (by decide) (by decide),
    hfield 24 16000 (by decide) (by decide), hfield 28 32000 (by decide) (by decide),
    hshort 32 2 (by decide) (by decide), hshort 34 16 (by decide) (by decide),
    hfield 40 (n - 44) (by decide) (by omega)]

/-- The check passes the admitted sizes behind the header that belongs to them. -/
theorem duration_ne_zero_iff (header : Bytes) (n : ℕ) :
    Resources.waveDurationMs header n ≠ 0 ↔
      32044 ≤ n ∧ n ≤ 1920044 ∧ (n - 44) % 2 = 0 ∧
        header.take 44 = (headerParts (n - 44)).flatten := by
  have hlength : header.take 44 = (headerParts (n - 44)).flatten → 44 ≤ header.length := by
    intro h
    have := congrArg List.length h
    rw [length_headerParts, List.length_take] at this
    omega
  unfold Resources.waveDurationMs
  split
  next hguard =>
    have hsize : header.length < 44 ∨ n < 32044 ∨ 1920044 < n ∨ (n - 44) % 2 ≠ 0 := hguard
    refine ⟨fun h => absurd rfl h, fun ⟨hmin, hmax, heven, hheader⟩ => ?_⟩
    have := hlength hheader
    omega
  next hguard =>
    have hsize : ¬ (header.length < 44 ∨ n < 32044 ∨ 1920044 < n ∨ (n - 44) % 2 ≠ 0) := hguard
    have hfields := @fields_iff header n (by omega) (by omega) (by omega)
    split
    next hwrong =>
      exact iff_of_false (absurd rfl) fun h => absurd hwrong (hfields.mpr h.2.2.2)
    next hright =>
      have hduration : (n - 44) * 1000 / 32000 ≠ 0 := by omega
      exact iff_of_true hduration ⟨by omega, by omega, by omega, hfields.mp hright⟩

theorem waveDurationMs_ne_zero_iff (header : Bytes) (totalBytes : UInt64) :
    waveDurationMs header totalBytes ≠ 0 ↔
      Resources.waveDurationMs header totalBytes.toNat ≠ 0 := by
  rw [ne_eq, ← Int32.toInt_inj, waveDurationMs_toInt, Int32.toInt_zero, Nat.cast_eq_zero]

theorem duration_eq {header : Bytes} {n : ℕ} (h : Resources.waveDurationMs header n ≠ 0) :
    Resources.waveDurationMs header n = (n - 44) * 1000 / 32000 := by
  unfold Resources.waveDurationMs at h ⊢
  split at h
  · exact absurd rfl h
  next hguard =>
    split at h
    · exact absurd rfl h
    next hright =>
      rw [if_neg hguard, if_neg hright]
      rfl

/-- The duration that a client with voice messages is told. -/
def presented (mediaSize : UInt64) : UInt64 :=
  if waveHeaderBytes.toUInt64 ≤ mediaSize then
    (mediaSize - waveHeaderBytes.toUInt64) * 1000 / pcmBytesPerSecond.toUInt64
  else 0

theorem presentMessage_duration {m : Message} {fileMessages : Bool} (h : m.msgType = 3) :
    (presentMessage m true fileMessages).durationMs = some (presented m.mediaSize) := by
  have hfile : ¬ (m.msgType = 2 ∧ ¬ fileMessages) := by
    rw [h]
    rintro ⟨h2, -⟩
    exact absurd h2 (by decide)
  rw [presentMessage, if_neg hfile, if_neg (not_not.mpr h), if_neg (by decide)]
  rfl

theorem presented_toNat {mediaSize : UInt64} (hmin : 44 ≤ mediaSize.toNat)
    (hmax : mediaSize.toNat ≤ 1920044) :
    (presented mediaSize).toNat = (mediaSize.toNat - 44) * 1000 / 32000 := by
  have hbytes : waveHeaderBytes.toUInt64.toNat ≤ mediaSize.toNat := hmin
  rw [presented, if_pos (UInt64.le_iff_toNat_le.mpr hbytes), duration_toNat hmin hmax]

/-- The chat server counts the duration in natural numbers. -/
theorem present_media {c : Wire.ChatJson} {mediaSize : UInt64} {fileMessages : Bool}
    (htype : c.msgType = 3) (hsize : c.mediaSize = mediaSize.toNat)
    (hmax : mediaSize.toNat ≤ 1920044) : (c.present true fileMessages).media =
      some ("wav/pcm_s16le/16000/mono", (presented mediaSize).toNat) := by
  have hfile : ¬ (c.msgType = 2 ∧ ¬ fileMessages) := by
    rw [htype]
    rintro ⟨h2, -⟩
    exact absurd h2 (by decide)
  rw [Wire.ChatJson.present, if_neg hfile, if_neg (not_not.mpr htype), if_neg (by decide), hsize]
  refine congrArg (fun d => some (_, d)) ?_
  by_cases hmin : 44 ≤ mediaSize.toNat
  · rw [presented_toNat hmin hmax]
    exact if_pos hmin
  · have hbytes : ¬ waveHeaderBytes.toUInt64.toNat ≤ mediaSize.toNat := hmin
    rw [presented, if_neg (mt UInt64.le_iff_toNat_le.mp hbytes)]
    exact if_neg hmin

/-- The check, the writer of headers and the duration of a stored message agree on every text
and every size. -/
theorem wave_agrees (header : Bytes) (totalBytes : UInt64) :
    (waveDurationMs header totalBytes ≠ 0 ↔ ∃ pcmBytes : UInt32,
      pcmBytes.toNat + 44 = totalBytes.toNat ∧ waveHeader pcmBytes ≠ [] ∧
      header.take 44 = waveHeader pcmBytes) ∧
    (waveDurationMs header totalBytes ≠ 0 →
      (waveDurationMs header totalBytes).toInt = (totalBytes.toNat - 44) * 1000 / 32000 ∧
      ∀ m fileMessages, m.msgType = 3 → m.mediaSize = totalBytes →
        ((presentMessage m true fileMessages).durationMs.map fun d => (d.toNat : ℤ)) =
          some (waveDurationMs header totalBytes).toInt) ∧
    (waveDurationMs header totalBytes ≠ 0 →
      ∀ c : Wire.ChatJson, ∀ fileMessages, c.msgType = 3 → c.mediaSize = totalBytes.toNat →
        (c.present true fileMessages).media =
          some ("wav/pcm_s16le/16000/mono", (totalBytes.toNat - 44) * 1000 / 32000)) := by
  refine ⟨?_, fun haccepted => ?_, fun haccepted c fileMessages htype hsize => ?_⟩
  · rw [waveDurationMs_ne_zero_iff, duration_ne_zero_iff]
    constructor
    · rintro ⟨hmin, hmax, heven, hheader⟩
      have hpcm : (UInt32.ofNat (totalBytes.toNat - 44)).toNat = totalBytes.toNat - 44 := by
        rw [UInt32.toNat_ofNat', Nat.mod_eq_of_lt (by omega)]
      have hwritten := @waveHeader_eq (UInt32.ofNat (totalBytes.toNat - 44)) (by omega) (by omega)
        (by omega)
      refine ⟨UInt32.ofNat (totalBytes.toNat - 44), by omega, ?_, ?_⟩
      · rw [hwritten]
        intro hnil
        have := length_headerParts (UInt32.ofNat (totalBytes.toNat - 44)).toNat
        rw [hnil] at this
        cases this
      · rw [hwritten, hpcm]
        exact hheader
    · rintro ⟨pcmBytes, htotal, hne, hheader⟩
      obtain ⟨hmin, hmax, heven⟩ := admitted_of_waveHeader hne
      rw [waveHeader_eq hmin hmax heven] at hheader
      have hpcm : totalBytes.toNat - 44 = pcmBytes.toNat := by omega
      rw [hpcm]
      exact ⟨by omega, by omega, heven, hheader⟩
  · rw [waveDurationMs_ne_zero_iff] at haccepted
    obtain ⟨hmin, hmax, -⟩ := (duration_ne_zero_iff _ _).mp haccepted
    rw [waveDurationMs_toInt, duration_eq haccepted]
    refine ⟨by omega, fun m fileMessages htype hsize => ?_⟩
    rw [presentMessage_duration htype, hsize]
    exact congrArg (fun d : ℕ => some (d : ℤ)) (presented_toNat (by omega) hmax)
  · rw [waveDurationMs_ne_zero_iff] at haccepted
    obtain ⟨hmin, hmax, -⟩ := (duration_ne_zero_iff _ _).mp haccepted
    rw [present_media htype hsize hmax, presented_toNat (by omega) hmax]

end CppChat.Media
