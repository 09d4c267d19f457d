import Mathlib.Algebra.Group.Int.Defs
import Mathlib.Data.Int.Notation
import Mathlib.Data.List.Basic
import PomeloUdp.Base.Address

/-!
# Addresses from text

`pomelo_address_from_string` scans a string for its length and its last colon, takes
the number behind the colon and hands a copy of what is before it to `inet_pton`.
The copy goes into a buffer of 40 bytes although a string of the allowed length has
up to 45 characters before its last colon, and the number is accumulated in 16 bits.
A parse does what it should when neither shows (`fromString_parses_iff`).
-/

namespace PomeloUdp

namespace Codec

/-- The functions of the socket library, with addresses in network byte order. The
zero behind a string is left out. -/
structure Inet where
  order : ByteOrder
  pton4 : List Char → Option (Vector UInt8 4)
  pton6 : List Char → Option (Vector UInt16 8)
  ntop4 : Vector UInt8 4 → List Char
  ntop6 : Vector UInt16 8 → List Char

/-- `struct sockaddr_in` and `struct sockaddr_in6`. -/
inductive Sockaddr where
  | inet (addr : Vector UInt8 4) (port : UInt16)
  | inet6 (addr : Vector UInt16 8) (port : UInt16)

namespace Address

/-- `MIN_ADDRESS_V6_LEN`. -/
def minAddressV6Len : ℤ := 4

/-- `MAX_ADDRESS_V6_LEN`. -/
def maxAddressV6Len : ℤ := 47

/-- `MAX_PORT_STR_LENGTH`. -/
def maxPortStrLength : ℤ := 5

/-- `BUF_ADDRESS_LENGTH`. -/
def bufAddressLength : ℤ := 40

/-- `pomelo_address_from_sockaddr`. -/
def fromSockaddr : Sockaddr → Address
  | .inet addr port => .ipv4 addr port
  | .inet6 addr port => .ipv6 addr port

/-- `pomelo_address_to_sockaddr`. -/
def toSockaddr : Address → Sockaddr
  | .ipv4 ip port => .inet ip port
  | .ipv6 ip port => .inet6 ip port

/-- The loop of `pomelo_address_parse_port`. -/
def parsePortLoop : UInt16 → List Char → Option UInt16
  | result, [] => some result
  | result, c :: str =>
      if c < '0' ∨ '9' < c then none
      else parsePortLoop (result * 10 + .ofNat (c.toNat - '0'.toNat)) str

/-- `pomelo_address_parse_port`. -/
def parsePort (inet : Inet) (str : List Char) : Option UInt16 :=
  (parsePortLoop 0 str).map inet.order.htons

/-- What `pomelo_address_analyze_string` finds out. -/
structure Analysis where
  strLength : ℤ
  colonCount : ℤ
  lastColonIndex : ℤ

/-- The loop of `pomelo_address_analyze_string`, with what it has seen. -/
def analyzeLoop (maxLength : ℤ) : Analysis → List Char → Option Analysis
  | a, [] => some a
  | a, c :: str =>
      let a := if c = ':' then ⟨a.strLength, a.colonCount + 1, a.strLength⟩ else a
      if maxLength < a.strLength + 1 then none
      else analyzeLoop maxLength { a with strLength := a.strLength + 1 } str

/-- `pomelo_address_analyze_string`. -/
def analyzeString (str : List Char) (maxLength : ℤ) : Option Analysis :=
  analyzeLoop maxLength ⟨0, 0, -1⟩ str

/-- `str[i]`. -/
def charAt (str : List Char) (i : ℤ) : Char := if i < 0 then '\x00' else str.getD i.toNat '\x00'

/-- A copy into `ip_str`, with the indices that are read from the string and written
to the buffer. -/
structure IpCopy where
  text : List Char
  reads : List ℤ
  writes : List ℤ

/-- Copying `n` characters and putting a zero behind them. The number is an `int`
that `memcpy` takes as a `size_t`. -/
def copyIp (str : List Char) (start n : ℤ) : IpCopy :=
  let indices := (List.range (n % 2 ^ 64).toNat).map fun k : ℕ => (k : ℤ)
  ⟨indices.map fun k => charAt str (start + k), indices.map fun k => start + k, indices ++ [n]⟩

/-- A parse: the address if there is one, the places of the string that are read from
or copied apart from the scan, and the places of `ip_str` that are written. Writing
behind the buffer is taken to do no harm to the rest. -/
structure Parsing where
  address : Option Address
  reads : List ℤ
  writes : List ℤ

/-- Returning -1 before anything is copied. -/
def Parsing.failed : Parsing := ⟨none, [], []⟩

/-- `pomelo_address_from_string`. -/
def fromString (inet : Inet) (str : List Char) : Parsing :=
  match analyzeString str maxAddressV6Len with
  | none => .failed
  | some ⟨length, colonCount, lastColonIndex⟩ =>
      if length < minAddressV6Len ∨ maxAddressV6Len < length ∨ lastColonIndex < 0 then .failed
      else
        let portStrLength := length - lastColonIndex - 1
        if portStrLength = 0 ∨ maxPortStrLength < portStrLength then .failed
        else
          match parsePort inet (str.drop (lastColonIndex + 1).toNat) with
          | none => .failed
          | some port =>
              if colonCount = 1 then
                let ip := copyIp str 0 lastColonIndex
                ⟨(inet.pton4 ip.text).map fun addr => fromSockaddr (.inet addr port),
                  (lastColonIndex + 1) :: ip.reads, ip.writes⟩
              else
                let brackets := if charAt str 0 = '[' then [0, lastColonIndex - 1] else [0]
                let ip :=
                  if charAt str 0 = '[' ∧ charAt str (lastColonIndex - 1) = ']' then
                    copyIp str 1 (lastColonIndex - 2)
                  else copyIp str 0 lastColonIndex
                ⟨(inet.pton6 ip.text).map fun addr => fromSockaddr (.inet6 addr port),
                  (lastColonIndex + 1) :: brackets ++ ip.reads, ip.writes⟩

section Ports

variable {str : List Char}

theorem not_digit_iff (c : Char) : c < '0' ∨ '9' < c ↔ ¬c.isDigit := by
  rw [Char.isDigit, Bool.and_eq_true, decide_eq_true_eq, decide_eq_true_eq, not_and_or]
  simp [Char.lt_def, UInt32.not_le]

theorem parsePortLoop_digits (h : ∀ c ∈ str, c.isDigit) (n : ℕ) :
    parsePortLoop (.ofNat n) str = some (.ofNat (Nat.ofDigitChars 10 str n)) := by
  induction str generalizing n with
  | nil => rfl
  | cons c str ih =>
      have hdigit : ¬(c < '0' ∨ '9' < c) := by
        rw [not_digit_iff, not_not]
        exact h c (List.mem_cons_self ..)
      have hstep : UInt16.ofNat n * 10 + .ofNat (c.toNat - '0'.toNat) =
          .ofNat (10 * n + (c.toNat - '0'.toNat)) := by
        rw [UInt16.ofNat_add, UInt16.ofNat_mul, UInt16.mul_comm]
        rfl
      rw [parsePortLoop, if_neg hdigit, hstep,
        ih (fun c hc => h c (List.mem_cons_of_mem _ hc)), Nat.ofDigitChars_cons]

theorem parsePortLoop_none {result : UInt16} (h : ¬∀ c ∈ str, c.isDigit) :
    parsePortLoop result str = none := by
  induction str generalizing result with
  | nil => simp at h
  | cons c str ih =>
      rw [parsePortLoop]
      split
      · rfl
      · rename_i hdigit
        rw [not_digit_iff, not_not] at hdigit
        refine ih fun hall => h fun d hd => ?_
        obtain rfl | hd := List.mem_cons.mp hd
        · exact hdigit
        · exact hall d hd

theorem parsePort_digits (inet : Inet) (h : ∀ c ∈ str, c.isDigit) :
    parsePort inet str = some (inet.order.htons (.ofNat (Nat.ofDigitChars 10 str 0))) := by
  exact congrArg (Option.map inet.order.htons) (parsePortLoop_digits h 0)

theorem parsePort_none (inet : Inet) (h : ¬∀ c ∈ str, c.isDigit) : parsePort inet str = none := by
  rw [parsePort, parsePortLoop_none h, Option.map_none]

end Ports

section Scan

variable {maxLength : ℤ} {str text digits : List Char}

theorem analyzeLoop_no_colon (h : ':' ∉ str) (a : Analysis) (ha : a.strLength ≤ maxLength) :
    analyzeLoop maxLength a str =
      if a.strLength + str.length ≤ maxLength then
        some { a with strLength := a.strLength + str.length }
      else none := by
  induction str generalizing a with
  | nil => simp [analyzeLoop, ha]
  | cons c str ih =>
      have hc : c ≠ ':' := fun hc => h (hc ▸ List.mem_cons_self ..)
      simp only [analyzeLoop, if_neg hc, List.length_cons, Int.natCast_succ]
      by_cases hlong : maxLength < a.strLength + 1
      · rw [if_pos hlong, if_neg (by omega)]
      · rw [if_neg hlong, ih (fun hmem => h (List.mem_cons_of_mem _ hmem)) _ (by simpa using hlong)]
        simp only [Int.add_assoc, Int.add_comm 1]

theorem analyzeLoop_split (h : ':' ∉ digits) (a : Analysis) (ha : a.strLength ≤ maxLength) :
    analyzeLoop maxLength a (text ++ ':' :: digits) =
      if a.strLength + (text.length + 1 + digits.length) ≤ maxLength then
        some ⟨a.strLength + (text.length + 1 + digits.length),
          a.colonCount + (text.count ':' + 1), a.strLength + text.length⟩
      else none := by
  induction text generalizing a with
  | nil =>
      simp only [List.nil_append, analyzeLoop, if_true]
      by_cases hlong : maxLength < a.strLength + 1
      · rw [if_pos hlong, if_neg (by simp; omega)]
      · rw [if_neg hlong, analyzeLoop_no_colon h _ (by simpa using hlong)]
        simp [Int.add_assoc]
  | cons c text ih =>
      simp only [List.cons_append, analyzeLoop, List.length_cons, Int.natCast_succ]
      by_cases hlong : maxLength < a.strLength + 1
      · have hlong' : maxLength < (if c = ':' then
            (⟨a.strLength, a.colonCount + 1, a.strLength⟩ : Analysis) else a).strLength + 1 := by
          split <;> exact hlong
        rw [if_pos hlong', if_neg (by omega)]
      · have hlength : a.strLength + 1 + (text.length + 1 + digits.length) =
            a.strLength + (text.length + 1 + 1 + digits.length) := by omega
        have hindex : a.strLength + 1 + text.length = a.strLength + (text.length + 1) := by omega
        by_cases hc : c = ':'
        · subst hc
          have hcount : a.colonCount + 1 + (text.count ':' + 1) =
              a.colonCount + (text.count ':' + 1 + 1) := by omega
          simp only [if_true, if_neg hlong]
          rw [ih _ (by simpa using hlong), List.count_cons_self, Int.natCast_succ]
          simp only [hlength, hindex, hcount]
        · simp only [if_neg hc, if_neg hlong]
          rw [ih _ (by simpa using hlong), List.count_cons_of_ne hc]
          simp only [hlength, hindex]

end Scan

section Copies

variable {str text : List Char} {i : ℤ}

theorem charAt_eq (str : List Char) {n : ℕ} (h : n < str.length) : charAt str n = str[n] := by
  rw [charAt, if_neg (by omega), Int.toNat_natCast]
  simp [h]

theorem text_copyIp {start n : ℕ} (h : start + n ≤ str.length) (hn : n < 2 ^ 64) :
    (copyIp str start n).text = (str.drop start).take n := by
  have hsize : ((n : ℤ) % 2 ^ 64).toNat = n := by omega
  apply List.ext_getElem
  · simp only [copyIp, hsize, List.length_map, List.length_range, List.length_take,
      List.length_drop]
    omega
  · intro k hk hk'
    have hkn : k < n := by
      simpa only [copyIp, hsize, List.length_map, List.length_range] using hk
    simp only [copyIp, List.getElem_map, List.getElem_range, List.getElem_take, List.getElem_drop]
    rw [← Int.natCast_add, charAt_eq str (by omega)]

theorem mem_writes_copyIp {start : ℤ} {n : ℕ} (hn : n < 2 ^ 64) :
    i ∈ (copyIp str start n).writes ↔ 0 ≤ i ∧ i ≤ n := by
  have hsize : ((n : ℤ) % 2 ^ 64).toNat = n := by omega
  simp only [copyIp, hsize, List.mem_append, List.mem_map, List.mem_range, List.mem_singleton]
  constructor
  · rintro (⟨k, hk, rfl⟩ | rfl) <;> omega
  · rintro ⟨hi, hi'⟩
    by_cases hlast : i = n
    · exact .inr hlast
    · exact .inl ⟨i.toNat, by omega, by omega⟩

theorem nonneg_of_mem_reads_copyIp {start : ℤ} {n : ℤ} (hstart : 0 ≤ start)
    (hi : i ∈ (copyIp str start n).reads) : 0 ≤ i := by
  simp only [copyIp, List.mem_map] at hi
  obtain ⟨_, ⟨k, -, rfl⟩, rfl⟩ := hi
  omega

/-- The text that is handed to `inet_pton`: what is before the last colon, without
the brackets of an IPv6 address. -/
def ipText (text : List Char) : List Char :=
  if ':' ∈ text ∧ text.head? = some '[' ∧ text.getLast? = some ']' then text.tail.dropLast
  else text

theorem ipText_of_not_mem (h : ':' ∉ text) : ipText text = text := if_neg fun h' => h h'.1

theorem eq_brackets (hcolon : ':' ∈ text) (hhead : text.head? = some '[')
    (hlast : text.getLast? = some ']') : text = '[' :: text.tail.dropLast ++ [']'] := by
  obtain _ | ⟨c, rest⟩ := text
  · cases hhead
  · obtain rfl : c = '[' := Option.some.inj hhead
    have hne : rest ≠ [] := by
      rintro rfl
      simp at hcolon
    rw [List.getLast?_cons, List.getLast?_eq_some_getLast hne, Option.getD_some] at hlast
    have hrest := List.dropLast_append_getLast hne
    rw [Option.some.inj hlast] at hrest
    rw [List.tail_cons, List.cons_append, hrest]

end Copies

section Parse

variable (inet : Inet) {text digits : List Char}

/-- A string is copied when its length is one of those allowed and its last colon is
followed by one to five digits. -/
structure Copies (text digits : List Char) : Prop where
  min : 4 ≤ text.length + 1 + digits.length
  max : text.length + 1 + digits.length ≤ 47
  port : digits ≠ []
  portMax : digits.length ≤ 5
  isDigit : ∀ c ∈ digits, c.isDigit

/-- What `inet_pton` makes of the text before the last colon, for any port. -/
def accepted (text : List Char) : Option (UInt16 → Address) :=
  if ':' ∈ text then (inet.pton6 (ipText text)).map .ipv6 else (inet.pton4 text).map .ipv4

theorem fromString_no_colon {str : List Char} (h : ':' ∉ str) : fromString inet str = .failed := by
  rw [fromString, analyzeString, analyzeLoop_no_colon h _ (by decide)]
  split
  · rfl
  · rename_i _ _ hlast heq
    split at heq
    · obtain ⟨-, -, rfl⟩ := Analysis.mk.inj (Option.some.inj heq)
      rw [if_pos (.inr (.inr (by decide)))]
    · cases heq

theorem analyzeString_split (h : ':' ∉ digits) :
    analyzeString (text ++ ':' :: digits) maxAddressV6Len =
      if text.length + 1 + digits.length ≤ 47 then
        some ⟨(text.length + 1 + digits.length : ℕ), text.count ':' + 1, text.length⟩
      else none := by
  rw [analyzeString, analyzeLoop_split h _ (by decide)]
  simp only [Int.zero_add, maxAddressV6Len]
  refine if_congr ?_ rfl rfl
  omega

theorem charAt_zero_iff (rest : List Char) (h : text ≠ []) {c : Char} :
    charAt (text ++ rest) 0 = c ↔ text.head? = some c := by
  obtain _ | ⟨d, text⟩ := text
  · exact absurd rfl h
  · simp [charAt]

theorem charAt_last_iff (rest : List Char) (h : text ≠ []) {c : Char} :
    charAt (text ++ rest) (text.length - 1) = c ↔ text.getLast? = some c := by
  have hpos := List.length_pos_iff.mpr h
  have hindex : (text.length : ℤ) - 1 = (text.length - 1 : ℕ) := by omega
  rw [hindex, charAt_eq _ (by rw [List.length_append]; omega), List.getElem_append_left (by omega),
    ← List.getLast_eq_getElem, List.getLast?_eq_some_getLast h, Option.some_inj]

theorem drop_past_colon (text digits : List Char) :
    (text ++ ':' :: digits).drop ((text.length : ℤ) + 1).toNat = digits := by
  have hindex : ((text.length : ℤ) + 1).toNat = (text ++ [':']).length := by
    rw [List.length_append, List.length_singleton]
    omega
  rw [hindex, List.append_cons text ':' digits, List.drop_left]

theorem fromString_of_not_copies (h : ':' ∉ digits) (hcopies : ¬Copies text digits) :
    fromString inet (text ++ ':' :: digits) = .failed := by
  rw [fromString, analyzeString_split h]
  by_cases hmax : text.length + 1 + digits.length ≤ 47
  · rw [if_pos hmax]
    dsimp only
    split
    · rfl
    rename_i hlength
    split
    · rfl
    rename_i hport
    rw [drop_past_colon]
    -- Only the digits are left to be wrong.
    have hdigits : ¬∀ c ∈ digits, c.isDigit := fun hdigits => by
      simp only [minAddressV6Len, maxPortStrLength] at hlength hport
      refine hcopies ⟨by omega, hmax, ?_, by omega, hdigits⟩
      rintro rfl
      exact hport (.inl (by rw [List.length_nil]; omega))
    rw [parsePort_none inet hdigits]
  · rw [if_neg hmax]

/-- What is copied of a text before the last colon: all of it, or what is inside the
brackets. -/
theorem copyIp_brackets (hcolon : ':' ∈ text) (hlength : text.length < 2 ^ 64) (rest : List Char) :
    ∃ start n : ℕ, (if charAt (text ++ rest) 0 = '[' ∧
          charAt (text ++ rest) (text.length - 1) = ']' then
        copyIp (text ++ rest) 1 (text.length - 2)
      else copyIp (text ++ rest) 0 text.length) = copyIp (text ++ rest) start n ∧
      (copyIp (text ++ rest) start n).text = ipText text ∧ n = (ipText text).length ∧
      n < 2 ^ 64 := by
  have hne : text ≠ [] := List.ne_nil_of_mem hcolon
  have hiff := and_congr (charAt_zero_iff rest hne (c := '['))
    (charAt_last_iff rest hne (c := ']'))
  by_cases hbrackets : text.head? = some '[' ∧ text.getLast? = some ']'
  · obtain ⟨hhead, hlast⟩ := hbrackets
    have htext := eq_brackets hcolon hhead hlast
    have hip : ipText text = text.tail.dropLast := if_pos ⟨hcolon, hhead, hlast⟩
    set inner := text.tail.dropLast
    have htwo : text.length = inner.length + 2 := by
      rw [htext]
      simp
    refine ⟨1, inner.length, ?_, ?_, by rw [hip], by omega⟩
    · rw [if_pos (hiff.mpr ⟨hhead, hlast⟩)]
      congr 1
      omega
    · rw [text_copyIp (by rw [List.length_append]; omega) (by omega), hip, htext]
      simp
  · refine ⟨0, text.length, ?_, ?_, ?_, hlength⟩
    · rw [if_neg (mt hiff.mp hbrackets)]
      rfl
    · rw [text_copyIp (by simp) hlength, List.drop_zero, List.take_left, ipText,
        if_neg fun h => hbrackets h.2]
    · rw [ipText, if_neg fun h => hbrackets h.2]

theorem fromString_of_copies (h : ':' ∉ digits) (hcopies : Copies text digits) :
    (fromString inet (text ++ ':' :: digits)).address =
        (accepted inet text).map
          (· (inet.order.htons (.ofNat (Nat.ofDigitChars 10 digits 0)))) ∧
      (∀ i, i ∈ (fromString inet (text ++ ':' :: digits)).writes ↔
        0 ≤ i ∧ i ≤ (ipText text).length) ∧
      ∀ i ∈ (fromString inet (text ++ ':' :: digits)).reads, 0 ≤ i := by
  obtain ⟨hmin, hmax, hne, hport, hdigits⟩ := hcopies
  have hpos := List.length_pos_iff.mpr hne
  rw [fromString, analyzeString_split h, if_pos hmax]
  dsimp only
  rw [if_neg (by simp only [minAddressV6Len, maxAddressV6Len]; omega),
    if_neg (by simp only [maxPortStrLength]; omega), drop_past_colon, parsePort_digits inet hdigits]
  dsimp only
  have hwhole : (copyIp (text ++ ':' :: digits) 0 text.length).text = text := by
    have htext : (copyIp (text ++ ':' :: digits) (0 : ℕ) text.length).text =
        ((text ++ ':' :: digits).drop 0).take text.length :=
      text_copyIp (by simp) (by omega)
    simpa using htext
  by_cases hcolon : ':' ∈ text
  · have hcount : ¬(text.count ':' : ℤ) + 1 = 1 := by
      have := List.count_pos_iff.mpr hcolon
      omega
    obtain ⟨start, n, hip, htext, hn, hsize⟩ :=
      copyIp_brackets hcolon (by omega) (':' :: digits)
    rw [if_neg hcount, accepted, if_pos hcolon, hip, htext, ← hn]
    dsimp only
    refine ⟨?_, fun i => mem_writes_copyIp hsize, ?_⟩
    · rw [Option.map_map]
      rfl
    · intro i hi
      obtain hi | hi := List.mem_append.mp hi
      · obtain rfl | hi := List.mem_cons.mp hi
        · omega
        · have hlast := List.length_pos_iff.mpr (List.ne_nil_of_mem hcolon)
          split at hi
          · obtain rfl | rfl : i = 0 ∨ i = text.length - 1 := by simpa using hi
            · exact Int.le_refl 0
            · omega
          · obtain rfl := List.mem_singleton.mp hi
            exact Int.le_refl 0
      · exact nonneg_of_mem_reads_copyIp (by omega) hi
  · have hcount : (text.count ':' : ℤ) + 1 = 1 := by
      rw [List.count_eq_zero_of_not_mem hcolon]
      rfl
    rw [if_pos hcount, accepted, if_neg hcolon, ipText_of_not_mem hcolon, hwhole]
    dsimp only
    refine ⟨?_, fun i => mem_writes_copyIp (by omega), ?_⟩
    · rw [Option.map_map]
      rfl
    · intro i hi
      obtain rfl | hi := List.mem_cons.mp hi
      · omega
      · exact nonneg_of_mem_reads_copyIp (by decide) hi

end Parse

section Splits

variable {str text text' digits digits' : List Char}

theorem exists_last_colon (h : ':' ∈ str) :
    ∃ text digits, str = text ++ ':' :: digits ∧ ':' ∉ digits := by
  obtain ⟨digits, text, hsplit, hdigits⟩ :=
    List.eq_append_cons_of_mem (List.mem_reverse.mpr h)
  refine ⟨text.reverse, digits.reverse, ?_, by simpa using hdigits⟩
  rw [← List.reverse_reverse str, hsplit]
  simp

theorem eq_of_last_colon (h : text ++ ':' :: digits = text' ++ ':' :: digits')
    (hdigits : ':' ∉ digits) (hdigits' : ':' ∉ digits') : digits = digits' := by
  obtain ⟨middle, rfl, hrest⟩ | ⟨middle, rfl, hrest⟩ := List.append_eq_append_iff.mp h
  · obtain _ | ⟨c, middle⟩ := middle
    · exact (List.cons.inj hrest).2
    · rw [List.cons_append, List.cons.injEq] at hrest
      exact absurd (hrest.2 ▸ by simp) hdigits
  · obtain _ | ⟨c, middle⟩ := middle
    · exact (List.cons.inj hrest).2.symm
    · rw [List.cons_append, List.cons.injEq] at hrest
      exact absurd (hrest.2 ▸ by simp) hdigits'

theorem not_mem_of_isDigit (h : ∀ c ∈ digits, c.isDigit) : ':' ∉ digits :=
  fun hmem => absurd (h ':' hmem) (by decide)

end Splits

/-- The decimal text of a port. -/
structure IsPortText (digits : List Char) (port : UInt16) : Prop where
  ne_nil : digits ≠ []
  isDigit : ∀ c ∈ digits, c.isDigit
  value : Nat.ofDigitChars 10 digits 0 = port.toNat

/-- What a parse owes: it writes inside its buffer, does not read before the string,
and gives an address only for an IP that `inet_pton` accepts, a colon and a port. -/
structure Parses (inet : Inet) (str : List Char) (p : Parsing) : Prop where
  inBuffer : ∀ i ∈ p.writes, 0 ≤ i ∧ i < bufAddressLength
  notBefore : ∀ i ∈ p.reads, 0 ≤ i
  sound : ∀ a, p.address = some a → ∃ ip digits, IsPortText digits (a.port inet.order) ∧
    ((str = ip ++ ':' :: digits ∧
        ∃ bytes port, inet.pton4 ip = some bytes ∧ a = .ipv4 bytes port) ∨
      ((str = ip ++ ':' :: digits ∨ str = '[' :: ip ++ ']' :: ':' :: digits) ∧
        ∃ groups port, inet.pton6 ip = some groups ∧ a = .ipv6 groups port))

/-- A string whose IP fits the buffer and whose port fits 16 bits, as far as it gets
there. -/
def Fits (inet : Inet) (str : List Char) : Prop :=
  ∀ text digits, str = text ++ ':' :: digits → Copies text digits →
    (ipText text).length < 40 ∧
      ((accepted inet text).isSome → Nat.ofDigitChars 10 digits 0 < 65536)

section Results

variable {inet : Inet} {str text digits : List Char}

theorem parses_failed : Parses inet str .failed :=
  ⟨by simp [Parsing.failed], by simp [Parsing.failed], by simp [Parsing.failed]⟩

theorem port_accepted {f : UInt16 → Address} (h : accepted inet text = some f) (port : UInt16) :
    (f port).port inet.order = inet.order.htons port := by
  unfold accepted at h
  split at h
  · obtain ⟨groups, -, rfl⟩ := Option.map_eq_some_iff.mp h
    rfl
  · obtain ⟨bytes, -, rfl⟩ := Option.map_eq_some_iff.mp h
    rfl

theorem ip_of_accepted {f : UInt16 → Address} (h : accepted inet text = some f) (port : UInt16)
    (digits : List Char) :
    ∃ ip, (text ++ ':' :: digits = ip ++ ':' :: digits ∧
        ∃ bytes port', inet.pton4 ip = some bytes ∧ f port = .ipv4 bytes port') ∨
      ((text ++ ':' :: digits = ip ++ ':' :: digits ∨
          text ++ ':' :: digits = '[' :: ip ++ ']' :: ':' :: digits) ∧
        ∃ groups port', inet.pton6 ip = some groups ∧ f port = .ipv6 groups port') := by
  unfold accepted at h
  split at h
  · rename_i hcolon
    obtain ⟨groups, hgroups, rfl⟩ := Option.map_eq_some_iff.mp h
    refine ⟨ipText text, .inr ⟨?_, groups, port, hgroups, rfl⟩⟩
    unfold ipText
    split
    · rename_i hbrackets
      refine .inr ?_
      nth_rewrite 1 [eq_brackets hcolon hbrackets.2.1 hbrackets.2.2]
      simp
    · exact .inl rfl
  · obtain ⟨bytes, hbytes, rfl⟩ := Option.map_eq_some_iff.mp h
    exact ⟨text, .inl ⟨rfl, bytes, port, hbytes, rfl⟩⟩

theorem parses_of_fits (h : Fits inet str) : Parses inet str (fromString inet str) := by
  by_cases hcolon : ':' ∈ str
  · obtain ⟨text, digits, rfl, hdigits⟩ := exists_last_colon hcolon
    by_cases hcopies : Copies text digits
    · obtain ⟨hbuffer, hport⟩ := h text digits rfl hcopies
      obtain ⟨haddress, hwrites, hreads⟩ := fromString_of_copies inet hdigits hcopies
      refine ⟨fun i hi => ?_, hreads, fun a ha => ?_⟩
      · obtain ⟨hi, hi'⟩ := (hwrites i).mp hi
        rw [bufAddressLength]
        omega
      · rw [haddress] at ha
        obtain ⟨f, hf, rfl⟩ := Option.map_eq_some_iff.mp ha
        obtain ⟨ip, hip⟩ := ip_of_accepted hf
          (inet.order.htons (.ofNat (Nat.ofDigitChars 10 digits 0))) digits
        have hnumber := hport (hf ▸ rfl)
        refine ⟨ip, digits, ⟨hcopies.port, hcopies.isDigit, ?_⟩, hip⟩
        rw [port_accepted hf, ByteOrder.htons_htons, UInt16.toNat_ofNat', Nat.mod_eq_of_lt hnumber]
    · rw [fromString_of_not_copies inet hdigits hcopies]
      exact parses_failed
  · rw [fromString_no_colon inet hcolon]
    exact parses_failed

theorem fits_of_parses (h : Parses inet str (fromString inet str)) : Fits inet str := by
  rintro text digits rfl hcopies
  have hdigits := not_mem_of_isDigit hcopies.isDigit
  obtain ⟨haddress, hwrites, -⟩ := fromString_of_copies inet hdigits hcopies
  constructor
  · have hlast := (h.inBuffer _ ((hwrites _).mpr ⟨Int.natCast_nonneg _, Int.le_refl _⟩)).2
    rw [bufAddressLength] at hlast
    omega
  · intro hsome
    obtain ⟨f, hf⟩ := Option.isSome_iff_exists.mp hsome
    rw [hf, Option.map_some] at haddress
    obtain ⟨ip, digits', hport, hip⟩ := h.sound _ haddress
    have hsame : digits = digits' := by
      have hdigits' := not_mem_of_isDigit hport.isDigit
      obtain ⟨hstr, -⟩ | ⟨hstr | hstr, -⟩ := hip
      · exact eq_of_last_colon hstr hdigits hdigits'
      · exact eq_of_last_colon hstr hdigits hdigits'
      · have hstr : text ++ ':' :: digits = ('[' :: ip ++ [']']) ++ ':' :: digits' := by
          simpa using hstr
        exact eq_of_last_colon hstr hdigits hdigits'
    rw [hsame, hport.value]
    exact UInt16.toNat_lt _

/-- A parse does what it owes exactly when the IP fits the buffer and the port fits
its 16 bits. -/
theorem fromString_parses_iff (inet : Inet) (str : List Char) :
    Parses inet str (fromString inet str) ↔ Fits inet str :=
  ⟨fits_of_parses, parses_of_fits⟩

/-- Forty characters before the colon leave no place for the zero, and a port of 70000
is taken for another one. -/
theorem fromString_overflows :
    (∀ inet, ¬Parses inet (List.replicate 40 '1' ++ [':', '8', '0'])
      (fromString inet (List.replicate 40 '1' ++ [':', '8', '0']))) ∧
    ∀ inet : Inet, (inet.pton4 "127.0.0.1".toList).isSome →
      ¬Parses inet "127.0.0.1:70000".toList (fromString inet "127.0.0.1:70000".toList) := by
  constructor
  · intro inet hparses
    have hfits := fits_of_parses hparses (List.replicate 40 '1') ['8', '0'] rfl
      ⟨by decide, by decide, by decide, by decide, List.all_eq_true.mp (by decide)⟩
    exact absurd hfits.1 (by decide)
  · intro inet hip hparses
    have hfits := fits_of_parses hparses "127.0.0.1".toList "70000".toList rfl
      ⟨by decide, by decide, by decide, by decide, List.all_eq_true.mp (by decide)⟩
    have haccepted : (accepted inet "127.0.0.1".toList).isSome := by
      rw [accepted, if_neg (by decide), Option.isSome_map]
      exact hip
    exact absurd (hfits.2 haccepted) (by decide)

end Results

end Address

end Codec

end PomeloUdp
