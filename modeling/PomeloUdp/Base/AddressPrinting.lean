import PomeloUdp.Base.AddressParsing

/-!
# Addresses as text

`pomelo_address_to_string` writes an address into a buffer of any capacity, cut off
where the buffer ends. What it leaves in the buffer is always the longest part of the
full text that the capacity has room for (`toString_memory`), and the full text is
parsed back into the address.
-/

namespace PomeloUdp

namespace Codec

open Memory

namespace Address

/-- `strlen` of a string that starts at `a` and ends within `n` characters. -/
def strlen (memory : ℕ → Char) : (n a : ℕ) → ℕ
  | 0, _ => 0
  | n + 1, a => if memory a = '\x00' then 0 else strlen memory n (a + 1) + 1

/-- `inet_ntop` with the text of the address: nothing is written when it does not fit. -/
def inetNtop (text : List Char) (memory : ℕ → Char) (dst size : ℕ) : Option (ℕ → Char) :=
  if size ≤ text.length then none else some (store memory dst (text ++ ['\x00']))

/-- What printing leaves behind: the memory from the buffer on, and the return code.
In the first step the value is the length of the text so far. -/
structure Printing (α : Type) where
  value : Option α
  memory : ℕ → Char

/-- The IP in `pomelo_address_to_string`. The capacity is handed to `inet_ntop` as a
`socklen_t` of 32 bits. -/
def ipToString (inet : Inet) (address : Address) (memory : ℕ → Char) (capacity : ℕ) :
    Printing ℕ :=
  let maxLength := capacity - 1
  match toSockaddr address with
  | .inet addr _ =>
      match inetNtop (inet.ntop4 addr) memory 0 (capacity % 2 ^ 32) with
      | none => ⟨none, memory⟩
      | some memory => ⟨some (strlen memory capacity 0), memory⟩
  | .inet6 addr _ =>
      let memory := store memory 0 ['[']
      if maxLength = 1 then ⟨some 1, store memory 1 ['\x00']⟩
      else
        match inetNtop (inet.ntop6 addr) memory 1 (maxLength % 2 ^ 32) with
        | none => ⟨none, memory⟩
        | some memory =>
            let length := strlen memory capacity 0
            if length < maxLength then
              ⟨some (length + 1), store memory length [']', '\x00']⟩
            else ⟨some length, memory⟩

/-- The text that `snprintf` makes of the port. -/
def portText (inet : Inet) (address : Address) : List Char :=
  ':' :: Nat.toDigits 10 (address.port inet.order).toNat

/-- `pomelo_address_to_string` of a buffer whose capacity is a `size_t`. -/
def toString (inet : Inet) (address : Address) (memory : ℕ → Char) (capacity : UInt64) :
    Printing Unit :=
  if capacity = 0 then ⟨some (), memory⟩
  else if capacity = 1 then ⟨some (), store memory 0 ['\x00']⟩
  else
    let maxLength := capacity.toNat - 1
    let ip := ipToString inet address memory capacity.toNat
    match ip.value with
    | none => ⟨none, ip.memory⟩
    | some length =>
        let remainLength := (maxLength + 2 ^ 64 - length) % 2 ^ 64
        if remainLength = 0 then ⟨some (), ip.memory⟩
        else
          let port := (portText inet address).take remainLength
          ⟨some (), store (store ip.memory length port) (length + port.length) ['\x00']⟩

/-- `pomelo_address_compare`. -/
def compare (first second : Address) : Bool :=
  match first, second with
  | .ipv4 ip port, .ipv4 ip' port' => if port ≠ port' then false else ip == ip'
  | .ipv6 ip port, .ipv6 ip' port' => if port ≠ port' then false else ip == ip'
  | _, _ => false

/-- The text of the IP as it is printed. -/
def ipPart (inet : Inet) : Address → List Char
  | .ipv4 ip _ => inet.ntop4 ip
  | .ipv6 ip _ => '[' :: inet.ntop6 ip ++ [']']

/-- The full text of an address. -/
def fullText (inet : Inet) (address : Address) : List Char :=
  ipPart inet address ++ portText inet address

section Overwriting

variable {memory : ℕ → Char} {xs ys : List Char} {c y : Char} {n : ℕ}

theorem store_behind (memory : ℕ → Char) (a : ℕ) (xs ys : List Char) (c y : Char) :
    store (store memory a (xs ++ [c])) (a + xs.length) (y :: ys) =
      store memory a (xs ++ y :: ys) := by
  rw [← store_store, ← store_store, store_over (by simp)]

theorem strlen_store (h : '\x00' ∉ xs) (hn : xs.length < n) (memory : ℕ → Char) (a : ℕ) :
    strlen (store memory a (xs ++ ['\x00'])) n a = xs.length := by
  induction xs generalizing n a memory with
  | nil =>
      obtain _ | n := n
      · cases hn
      · simp [strlen, store]
  | cons x xs ih =>
      obtain _ | n := n
      · cases hn
      · have hx : x ≠ '\x00' := fun hx => h (hx ▸ List.mem_cons_self ..)
        have hhead : store memory a (x :: xs ++ ['\x00']) a = x := by simp [store]
        have htail : store memory a (x :: xs ++ ['\x00']) =
            store (store memory a [x]) (a + 1) (xs ++ ['\x00']) := by
          rw [show a + 1 = a + [x].length from rfl, store_store]
          rfl
        rw [strlen, hhead, if_neg hx, htail,
          ih (fun hmem => h (List.mem_cons_of_mem _ hmem)) (Nat.lt_of_succ_lt_succ hn)]
        rfl

end Overwriting

section Printed

variable {inet : Inet} {address : Address} {memory : ℕ → Char} {capacity : ℕ}

theorem inetNtop_eq_some {text : List Char} {memory' : ℕ → Char} {dst size : ℕ}
    (h : inetNtop text memory dst size = some memory') :
    text.length < size ∧ memory' = store memory dst (text ++ ['\x00']) := by
  unfold inetNtop at h
  split at h
  · cases h
  · exact ⟨by omega, (Option.some.inj h).symm⟩

theorem ipToString_cases (memory : ℕ → Char) (hzero : '\x00' ∉ ipPart inet address)
    (hcapacity : 2 ≤ capacity) :
    ((ipToString inet address memory capacity).value = none ∧
      ∃ xs : List Char, xs.length < capacity ∧
        (ipToString inet address memory capacity).memory = store memory 0 xs) ∨
    ipToString inet address memory capacity =
      ⟨some (min (ipPart inet address).length (capacity - 1)),
        store memory 0 ((ipPart inet address).take (capacity - 1) ++ ['\x00'])⟩ := by
  cases address with
  | ipv4 ip port =>
      simp only [ipToString, toSockaddr, ipPart] at hzero ⊢
      cases hntop : inetNtop (inet.ntop4 ip) memory 0 (capacity % 2 ^ 32) with
      | none => exact .inl ⟨rfl, [], by simp; omega, (store_nil memory 0).symm⟩
      | some memory' =>
          obtain ⟨hsize, rfl⟩ := inetNtop_eq_some hntop
          have hfits : (inet.ntop4 ip).length < capacity :=
            Nat.lt_of_lt_of_le hsize (Nat.mod_le _ _)
          refine .inr ?_
          rw [Nat.min_eq_left (by omega), List.take_of_length_le (by omega)]
          simp only [strlen_store hzero hfits]
  | ipv6 ip port =>
      have hbracket : '\x00' ∉ '[' :: inet.ntop6 ip := fun hmem =>
        hzero (List.mem_append_left _ hmem)
      have hopen : store (store memory 0 ['[']) 1 (inet.ntop6 ip ++ ['\x00']) =
          store memory 0 (('[' :: inet.ntop6 ip) ++ ['\x00']) :=
        store_store memory 0 ['['] _
      simp only [ipToString, toSockaddr, ipPart]
      by_cases hone : capacity - 1 = 1
      · rw [if_pos hone, hone]
        refine .inr ?_
        rw [Nat.min_eq_right (by simp), show (1 : ℕ) = 0 + ['['].length from rfl, store_store]
        rfl
      rw [if_neg hone]
      cases hntop : inetNtop (inet.ntop6 ip) (store memory 0 ['[']) 1 ((capacity - 1) % 2 ^ 32) with
      | none => exact .inl ⟨rfl, ['['], by simp; omega, rfl⟩
      | some memory' =>
          obtain ⟨hsize, rfl⟩ := inetNtop_eq_some hntop
          have hfits : (inet.ntop6 ip).length < capacity - 1 :=
            Nat.lt_of_lt_of_le hsize (Nat.mod_le _ _)
          have hlength : strlen (store memory 0 (('[' :: inet.ntop6 ip) ++ ['\x00'])) capacity 0 =
              (inet.ntop6 ip).length + 1 :=
            strlen_store hbracket (by rw [List.length_cons]; omega) memory 0
          refine .inr ?_
          simp only [hopen, hlength]
          by_cases hclose : (inet.ntop6 ip).length + 1 < capacity - 1
          · have hbehind := store_behind memory 0 ('[' :: inet.ntop6 ip) ['\x00'] '\x00' ']'
            rw [if_pos hclose, Nat.min_eq_left (by simp; omega),
              List.take_of_length_le (by simp; omega)]
            rw [Nat.zero_add, List.length_cons] at hbehind
            rw [hbehind]
            simp
          · -- The text fills the buffer and its bracket stays open.
            have hfull : capacity - 1 = ('[' :: inet.ntop6 ip).length := by
              rw [List.length_cons]
              omega
            rw [if_neg hclose, Nat.min_eq_right (by simp; omega), hfull, List.take_left]
            rfl

theorem ipToString_ne_none (hroom : (ipPart inet address).length < capacity)
    (hcapacity : capacity < 2 ^ 32) :
    (ipToString inet address memory capacity).value ≠ none := by
  have hmod : capacity % 2 ^ 32 = capacity := Nat.mod_eq_of_lt hcapacity
  have hmod' : (capacity - 1) % 2 ^ 32 = capacity - 1 := Nat.mod_eq_of_lt (by omega)
  cases address with
  | ipv4 ip port =>
      simp only [ipPart] at hroom
      simp only [ipToString, toSockaddr, inetNtop, hmod, if_neg (Nat.not_le.mpr hroom)]
      exact Option.some_ne_none _
  | ipv6 ip port =>
      have hfits : ¬capacity - 1 ≤ (inet.ntop6 ip).length := by
        simp only [ipPart, List.length_append, List.length_cons, List.length_nil] at hroom
        omega
      simp only [ipToString, toSockaddr, inetNtop, hmod', if_neg hfits]
      split
      · exact Option.some_ne_none _
      · split <;> exact Option.some_ne_none _

variable {capacity : UInt64}

theorem store_port (memory : ℕ → Char) {ip port : List Char} {n : ℕ} (h : ip.length < n)
    (hport : port ≠ []) :
    store (store (store memory 0 (ip ++ ['\x00'])) ip.length (port.take (n - ip.length)))
        (ip.length + (port.take (n - ip.length)).length) ['\x00'] =
      store memory 0 ((ip ++ port).take n ++ ['\x00']) := by
  obtain ⟨y, ys, hcut⟩ : ∃ y ys, port.take (n - ip.length) = y :: ys := by
    refine List.exists_cons_of_ne_nil fun hnil => ?_
    have hlength := congrArg List.length hnil
    have hpos := List.length_pos_iff.mpr hport
    rw [List.length_take, List.length_nil] at hlength
    omega
  have hbehind := store_behind memory 0 ip ys '\x00' y
  have hlast := store_store memory 0 (ip ++ y :: ys) ['\x00']
  rw [Nat.zero_add] at hbehind hlast
  rw [List.length_append] at hlast
  rw [List.take_append, List.take_of_length_le (Nat.le_of_lt h), hcut, hbehind, hlast]

theorem toNat_capacity_ne {n : UInt64} (h : capacity ≠ n) : capacity.toNat ≠ n.toNat :=
  fun heq => h (UInt64.toNat_inj.mp heq)

theorem toString_memory (hzero : '\x00' ∉ ipPart inet address) (hcapacity : capacity ≠ 0)
    (hvalue : (toString inet address memory capacity).value = some ()) :
    (toString inet address memory capacity).memory =
      store memory 0 ((fullText inet address).take (capacity.toNat - 1) ++ ['\x00']) := by
  unfold toString at hvalue ⊢
  rw [if_neg hcapacity] at hvalue ⊢
  by_cases hone : capacity = 1
  · rw [if_pos hone, hone]
    simp
  rw [if_neg hone] at hvalue ⊢
  have htwo : 2 ≤ capacity.toNat := by
    have hzero' : capacity.toNat ≠ 0 := toNat_capacity_ne hcapacity
    have hone' : capacity.toNat ≠ 1 := toNat_capacity_ne hone
    omega
  have hmax := capacity.toNat_lt
  obtain ⟨hnone, -⟩ | hip := ipToString_cases memory hzero htwo
  · simp only [hnone, reduceCtorEq] at hvalue
  simp only [hip] at hvalue ⊢
  by_cases hroom : (ipPart inet address).length < capacity.toNat - 1
  · have hremain : (capacity.toNat - 1 + 2 ^ 64 - (ipPart inet address).length) % 2 ^ 64 =
        capacity.toNat - 1 - (ipPart inet address).length := by omega
    have hport := store_port memory hroom (List.cons_ne_nil _ _ : portText inet address ≠ [])
    rw [Nat.min_eq_left (Nat.le_of_lt hroom), hremain, if_neg (by omega),
      List.take_of_length_le (Nat.le_of_lt hroom)]
    exact hport
  · have hremain : (capacity.toNat - 1 + 2 ^ 64 - (capacity.toNat - 1)) % 2 ^ 64 = 0 := by omega
    rw [Nat.min_eq_right (by omega), hremain, if_pos rfl, fullText,
      List.take_append_of_le_length (by omega)]

theorem toString_value (memory : ℕ → Char) (hroom : (ipPart inet address).length < capacity.toNat)
    (hcapacity : capacity.toNat < 2 ^ 32) :
    (toString inet address memory capacity).value = some () := by
  unfold toString
  split
  · rfl
  split
  · rfl
  cases hip : (ipToString inet address memory capacity.toNat).value with
  | none => exact absurd hip (ipToString_ne_none hroom hcapacity)
  | some length =>
      simp only [hip]
      split <;> rfl

theorem length_ipPart_le (inet : Inet) (address : Address) :
    (ipPart inet address).length ≤ (fullText inet address).length := by
  rw [fullText, List.length_append]
  exact Nat.le_add_right _ _

theorem toString_outside (hzero : '\x00' ∉ ipPart inet address) {i : ℕ}
    (hi : capacity.toNat ≤ i) : (toString inet address memory capacity).memory i = memory i := by
  by_cases hcapacity : capacity = 0
  · rw [toString, if_pos hcapacity]
  have hpos : capacity.toNat ≠ 0 := toNat_capacity_ne hcapacity
  cases hvalue : (toString inet address memory capacity).value with
  | some _ =>
      rw [toString_memory hzero hcapacity hvalue]
      refine store_outside (.inr ?_)
      rw [List.length_append, List.length_take, List.length_singleton]
      omega
  | none =>
      unfold toString at hvalue ⊢
      rw [if_neg hcapacity] at hvalue ⊢
      by_cases hone : capacity = 1
      · simp [hone] at hvalue
      rw [if_neg hone] at hvalue ⊢
      have hone' : capacity.toNat ≠ 1 := toNat_capacity_ne hone
      obtain ⟨hnone, xs, hxs, hmemory⟩ | hip :=
        ipToString_cases memory hzero (show 2 ≤ capacity.toNat by omega)
      · simp only [hnone, hmemory]
        exact store_outside (.inr (by omega))
      · simp only [hip] at hvalue
        split at hvalue <;> cases hvalue

end Printed

/-- The string in a buffer of `n` characters. -/
def cString (memory : ℕ → Char) (n : ℕ) : List Char :=
  (load memory 0 n).takeWhile (· ≠ '\x00')

/-- What the socket library documents about the text of an address: it is read back, it
has colons for IPv6 only, and it is no longer than the longest of its kind. -/
def Documented (inet : Inet) : Address → Prop
  | .ipv4 ip _ =>
      inet.pton4 (inet.ntop4 ip) = some ip ∧ ':' ∉ inet.ntop4 ip ∧ '\x00' ∉ inet.ntop4 ip ∧
        7 ≤ (inet.ntop4 ip).length ∧ (inet.ntop4 ip).length ≤ 15
  | .ipv6 ip _ =>
      inet.pton6 (inet.ntop6 ip) = some ip ∧ ':' ∈ inet.ntop6 ip ∧ '\x00' ∉ inet.ntop6 ip ∧
        (inet.ntop6 ip).length ≤ 39

section RoundTrip

variable {inet : Inet} {address : Address}

theorem cString_store {xs : List Char} {n : ℕ} (hzero : '\x00' ∉ xs) (hn : xs.length < n)
    (memory : ℕ → Char) : cString (store memory 0 (xs ++ ['\x00'])) n = xs := by
  obtain ⟨k, rfl⟩ := Nat.exists_eq_add_of_le (Nat.succ_le_of_lt hn)
  have hall : ∀ c ∈ xs, decide (c ≠ '\x00') = true := fun c hc =>
    decide_eq_true fun hzero' => hzero (hzero' ▸ hc)
  have hload := load_store memory 0 (xs ++ ['\x00'])
  rw [List.length_append, List.length_singleton] at hload
  rw [cString, load_add, hload, List.append_assoc, List.takeWhile_append_of_pos hall]
  simp

theorem Documented.not_mem_ipPart (h : Documented inet address) :
    '\x00' ∉ ipPart inet address := by
  cases address with
  | ipv4 ip port => exact h.2.2.1
  | ipv6 ip port => simpa [ipPart] using h.2.2.1

theorem isPortText_toDigits (port : UInt16) : IsPortText (Nat.toDigits 10 port.toNat) port :=
  ⟨Nat.toDigits_ne_nil, fun _ hc => Nat.isDigit_of_mem_toDigits (by decide) (by decide) hc,
    Nat.ofDigitChars_ten_toDigits⟩

theorem length_toDigits_port (port : UInt16) : (Nat.toDigits 10 port.toNat).length ≤ 5 := by
  have hport := port.toNat_lt
  rw [Nat.length_toDigits_le_iff (by decide) (by decide)]
  omega

theorem Documented.not_mem_fullText (h : Documented inet address) :
    '\x00' ∉ fullText inet address := by
  have hdigits := (isPortText_toDigits (address.port inet.order)).isDigit
  rw [fullText, portText, List.mem_append, List.mem_cons, not_or, not_or]
  exact ⟨h.not_mem_ipPart, by decide, fun hmem => absurd (hdigits _ hmem) (by decide)⟩

theorem accepted_ipPart (h : Documented inet address) (port : UInt16) :
    (accepted inet (ipPart inet address)).map (· port) =
        some (match address with
          | .ipv4 ip _ => .ipv4 ip port
          | .ipv6 ip _ => .ipv6 ip port) ∧
      (ipText (ipPart inet address)).length ≤ 39 ∧ 4 ≤ (ipPart inet address).length + 2 ∧
      (ipPart inet address).length ≤ 41 := by
  cases address with
  | ipv4 ip _ =>
      obtain ⟨hback, hcolon, -, hmin, hmax⟩ := h
      simp only [accepted, ipPart, ipText_of_not_mem hcolon, if_neg hcolon, hback, Option.map_some]
      exact ⟨trivial, by omega, by omega, by omega⟩
  | ipv6 ip _ =>
      obtain ⟨hback, hcolon, -, hmax⟩ := h
      have hmem : ':' ∈ '[' :: inet.ntop6 ip ++ [']'] := by simp [hcolon]
      have hip : ipText ('[' :: inet.ntop6 ip ++ [']']) = inet.ntop6 ip := by
        rw [ipText, if_pos ⟨hmem, rfl, List.getLast?_concat⟩]
        simp
      simp only [accepted, ipPart, if_pos hmem, hip, hback, Option.map_some, List.length_append,
        List.length_cons, List.length_nil]
      exact ⟨trivial, hmax, by omega, by omega⟩

theorem fromString_fullText (h : Documented inet address) :
    (fromString inet (fullText inet address)).address = some address ∧
      ∀ i ∈ (fromString inet (fullText inet address)).writes, i < bufAddressLength := by
  have hport := isPortText_toDigits (address.port inet.order)
  have hlength := length_toDigits_port (address.port inet.order)
  have hpos := List.length_pos_iff.mpr hport.ne_nil
  obtain ⟨haccepted, hbuffer, hmin, hmax⟩ :=
    accepted_ipPart h (inet.order.htons (address.port inet.order))
  have hcopies : Copies (ipPart inet address)
      (Nat.toDigits 10 (address.port inet.order).toNat) :=
    ⟨by omega, by omega, hport.ne_nil, hlength, hport.isDigit⟩
  obtain ⟨haddress, hwrites, -⟩ :=
    fromString_of_copies inet (not_mem_of_isDigit hport.isDigit) hcopies
  rw [hport.value, UInt16.ofNat_toNat, haccepted] at haddress
  refine ⟨haddress.trans ?_, fun i hi => ?_⟩
  · cases address with
    | ipv4 | ipv6 => simp [port]
  · have hi := ((hwrites i).mp hi).2
    rw [bufAddressLength]
    omega

theorem compare_self (address : Address) : compare address address = true := by
  cases address <;> simp [compare]

end RoundTrip

/-- Printing an address stays inside the capacity; with a capacity of at least one it
leaves a part of the full text and a zero when it succeeds, and with room for the full
text it gives a string that is parsed into an equal address. -/
theorem toString_fromString (inet : Inet) (address : Address) (h : Documented inet address) :
    (∀ memory capacity i, capacity.toNat ≤ i →
      (toString inet address memory capacity).memory i = memory i) ∧
    (∀ memory, toString inet address memory 0 = ⟨some (), memory⟩) ∧
    (∀ memory capacity, capacity ≠ 0 →
      (toString inet address memory capacity).value = some () →
        ∃ n < capacity.toNat, load (toString inet address memory capacity).memory 0 (n + 1) =
          (fullText inet address).take n ++ ['\x00']) ∧
    ∀ memory capacity, (fullText inet address).length < capacity.toNat →
      capacity.toNat < 2 ^ 32 →
        (toString inet address memory capacity).value = some () ∧
        ∃ a, (fromString inet (cString (toString inet address memory capacity).memory
            capacity.toNat)).address = some a ∧ compare address a = true ∧
          ∀ i ∈ (fromString inet (cString (toString inet address memory capacity).memory
            capacity.toNat)).writes, i < bufAddressLength := by
  have hzero := h.not_mem_ipPart
  refine ⟨fun memory capacity i hi => toString_outside hzero hi, fun memory => rfl,
    fun memory capacity hcapacity hvalue => ?_, fun memory capacity hroom hcapacity => ?_⟩
  · have hpos : capacity.toNat ≠ 0 := toNat_capacity_ne hcapacity
    rw [toString_memory hzero hcapacity hvalue]
    refine ⟨((fullText inet address).take (capacity.toNat - 1)).length, ?_, ?_⟩
    · rw [List.length_take]
      omega
    · have hload := load_store memory 0
        ((fullText inet address).take (capacity.toNat - 1) ++ ['\x00'])
      rw [List.length_append, List.length_singleton] at hload
      rw [hload, List.length_take, ← List.take_eq_take_min]
  · have hvalue := toString_value memory
      (Nat.lt_of_le_of_lt (length_ipPart_le inet address) hroom) hcapacity
    have hnonzero : capacity ≠ 0 := by
      rintro rfl
      cases hroom
    rw [toString_memory hzero hnonzero hvalue, List.take_of_length_le (by omega),
      cString_store h.not_mem_fullText hroom]
    obtain ⟨haddress, hwrites⟩ := fromString_fullText h
    exact ⟨hvalue, address, haddress, compare_self address, hwrites⟩

/-- A socket library with the loopback addresses. -/
def loopbackInet : Inet where
  order := .littleEndian
  pton4 text := if text = "127.0.0.2".toList then some #v[127, 0, 0, 2] else none
  pton6 text := if text = "::1".toList then some #v[0, 0, 0, 0, 0, 0, 0, 0x0100] else none
  ntop4 _ := "127.0.0.2".toList
  ntop6 _ := "::1".toList

theorem toString_fromString_loopback :
    (toString loopbackInet (.ipv6 #v[0, 0, 0, 0, 0, 0, 0, 0x0100] 0x5000) (fun _ => 'x') 10).value =
      some () :=
  ((toString_fromString loopbackInet (.ipv6 #v[0, 0, 0, 0, 0, 0, 0, 0x0100] 0x5000)
    ⟨rfl, by decide, by decide, by decide⟩).2.2.2 (fun _ => 'x') 10 (by decide) (by decide)).1

/-- A buffer of no capacity is left as it was, without a zero. -/
theorem toString_no_capacity :
    ¬∀ inet address, Documented inet address → ∀ memory capacity,
      (toString inet address memory capacity).value = some () →
        ∃ n, load (toString inet address memory capacity).memory 0 (n + 1) =
          (fullText inet address).take n ++ ['\x00'] := by
  intro hclaim
  obtain ⟨n, hn⟩ := hclaim loopbackInet (.ipv4 #v[127, 0, 0, 2] 0x5000)
    ⟨rfl, by decide, by decide, by decide, by decide⟩ (fun _ => 'x') 0 rfl
  have hmem : '\x00' ∈ load (fun _ => 'x') 0 (n + 1) := by
    have hlast := List.mem_append_right
      ((fullText loopbackInet (.ipv4 #v[127, 0, 0, 2] 0x5000)).take n)
      (List.mem_singleton_self '\x00')
    rwa [← hn] at hlast
  simp [load] at hmem

end Address

end Codec

end PomeloUdp
