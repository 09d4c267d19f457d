import PomeloUdp.Delivery.ReliableDelivery
import PomeloUdp.Delivery.Reassembly

/-!
# Reads of a parcel with empty chunks

The loop of the reader takes the next chunk when the current one is used up, and then asserts
that it reads something. `Reader` leaves the assertion out; `readChecked` has it, and they agree as
long as it holds (`read_eq_of_readChecked`). It does as long as no empty chunk stands before one
that is not (`Tight`), and the first read across such a chunk fails: `reads_iff`.

The lengths of the chunks are those of the fragments that a peer sends.
-/

namespace PomeloUdp

namespace Delivery

/-- What a call of `pomelo_delivery_reader_read` does. -/
inductive ReadOutcome where
  | read (bytes : Bytes) (reader : Reader)
  /-- It returns an error. -/
  | failed (reader : Reader)
  /-- The assertion of its loop fails. -/
  | assertion
  deriving DecidableEq, Repr

/-- Bytes that were read before. -/
def ReadOutcome.append (bytes : Bytes) : ReadOutcome → ReadOutcome
  | .read bytes' reader => .read (bytes ++ bytes') reader
  | .failed reader => .failed reader
  | .assertion => .assertion

/-- What a read that does not stop at the assertion returns. -/
def ReadOutcome.result : ReadOutcome → Option (Bytes × Reader)
  | .read bytes reader => some (bytes, reader)
  | _ => none

namespace Reader

/-- The next chunk, when the current one is used up. -/
def nextChunk (r : Reader) : Option Reader :=
  if r.payload = [] then
    match r.chunks with
    | [] => none
    | chunk :: chunks => some { r with chunks := chunks, payload := chunk }
  else some r

/-- The loop of `pomelo_delivery_reader_read` with the number of bytes that remain to be read. -/
def readLoop (r : Reader) (remain : ℕ) : ReadOutcome :=
  if remain = 0 then .read [] r
  else
    match r.nextChunk with
    | none => .failed r
    | some r =>
        let reading := min r.payload.length remain
        if reading = 0 then .assertion
        else
          (readLoop { r with
            payload := r.payload.drop reading
            remainBytes := r.remainBytes - reading } (remain - reading)).append
              (r.payload.take reading)
  termination_by remain

/-- `pomelo_delivery_reader_read`. -/
def readChecked (r : Reader) (length : ℕ) : ReadOutcome :=
  if length = 0 then .read [] r
  else if r.remainBytes < length then .failed r
  else r.readLoop length

section Agreement

theorem readFrom_cons_nil {chunk : Bytes} {chunks : List Bytes} {remain : ℕ} (h : remain ≠ 0) :
    readFrom (chunk :: chunks) [] remain = readFrom chunks chunk remain := by
  rw [readFrom, if_neg (by simpa using h), List.length_nil, Nat.sub_zero]
  exact Option.map_id'

theorem readFrom_of_lt {payload : Bytes} {remain : ℕ} (chunks : List Bytes)
    (h : payload.length < remain) :
    readFrom chunks payload remain =
      (readFrom chunks [] (remain - payload.length)).map fun r => (payload ++ r.1, r.2) := by
  cases chunks with
  | nil => simp [readFrom, Nat.not_le_of_lt h, Nat.sub_ne_zero_of_lt h]
  | cons chunk chunks =>
      rw [readFrom_cons_nil (Nat.sub_ne_zero_of_lt h), readFrom, if_neg (Nat.not_le_of_lt h)]

theorem readLoop_eq (remain : ℕ) (r : Reader) (h : r.readLoop remain ≠ .assertion)
    (hpos : remain ≠ 0) :
    (readFrom r.chunks r.payload remain).map
        (fun s => (s.1, (⟨s.2.1, s.2.2, r.remainBytes - remain⟩ : Reader))) =
      (r.readLoop remain).result := by
  induction remain using Nat.strong_induction_on generalizing r with
  | _ remain ih =>
    obtain ⟨chunks, payload, remainBytes⟩ := r
    -- one turn of the loop, with the chunk that it reads from
    have hturn : ∀ (chunks : List Bytes) (payload : Bytes),
        let turn : ReadOutcome := if min payload.length remain = 0 then .assertion
          else (readLoop ⟨chunks, payload.drop (min payload.length remain),
            remainBytes - min payload.length remain⟩ (remain - min payload.length remain)).append
              (payload.take (min payload.length remain))
        turn ≠ .assertion → (readFrom chunks payload remain).map
            (fun s => (s.1, (⟨s.2.1, s.2.2, remainBytes - remain⟩ : Reader))) = turn.result := by
      intro chunks payload turn hturn
      have hreading : min payload.length remain ≠ 0 := fun hzero => hturn (if_pos hzero)
      by_cases hle : remain ≤ payload.length
      · have hread : readFrom chunks payload remain =
            some (payload.take remain, chunks, payload.drop remain) := by
          cases chunks <;> rw [readFrom, if_pos hle]
        have hdone : turn = .read (payload.take remain)
            ⟨chunks, payload.drop remain, remainBytes - remain⟩ := by
          simp [turn, Nat.min_eq_right hle, hpos, readLoop, ReadOutcome.append]
        rw [hread, hdone]
        rfl
      · have hlt := Nat.lt_of_not_le hle
        have hrest : turn = (readLoop ⟨chunks, [], remainBytes - payload.length⟩
            (remain - payload.length)).append payload := by
          rw [Nat.min_eq_left hlt.le] at hreading
          simp only [turn, Nat.min_eq_left hlt.le, if_neg hreading, List.drop_length,
            List.take_length]
        rw [hrest] at hturn ⊢
        have hloop := ih (remain - payload.length) (by omega)
          ⟨chunks, [], remainBytes - payload.length⟩ (fun heq => hturn (by rw [heq]; rfl))
          (by omega)
        rw [readFrom_of_lt chunks hlt, Option.map_map]
        have hbytes : remainBytes - payload.length - (remain - payload.length) =
            remainBytes - remain := by omega
        dsimp only at hloop
        rw [hbytes] at hloop
        cases hresult : readLoop ⟨chunks, [], remainBytes - payload.length⟩
            (remain - payload.length) <;> rw [hresult] at hloop <;>
          cases hread : readFrom chunks [] (remain - payload.length) <;>
          simp_all [ReadOutcome.result, ReadOutcome.append]
    rw [readLoop, if_neg hpos, nextChunk] at h ⊢
    by_cases hpayload : payload = []
    · subst hpayload
      cases chunks with
      | nil => simp [readFrom, hpos, ReadOutcome.result]
      | cons chunk chunks =>
          rw [readFrom_cons_nil hpos]
          exact hturn chunks chunk h
    · rw [if_neg hpayload] at h ⊢
      exact hturn chunks payload h

theorem read_eq_of_readChecked {r : Reader} {length : ℕ}
    (h : r.readChecked length ≠ .assertion) : r.read length = (r.readChecked length).result := by
  unfold readChecked at h ⊢
  unfold Reader.read
  by_cases hzero : length = 0
  · simp [hzero, ReadOutcome.result]
  · rw [if_neg hzero] at h ⊢
    rw [if_neg hzero]
    by_cases hlt : r.remainBytes < length
    · simp [hlt, ReadOutcome.result]
    · rw [if_neg hlt] at h ⊢
      rw [if_neg hlt]
      exact readLoop_eq length r h hzero

end Agreement

/-- Every read of a sequence is right: one of at most the bytes that remain gives the next ones,
a longer one fails and consumes nothing. -/
def Reads (r : Reader) (bytes : Bytes) : List ℕ → Prop
  | [] => r.remainBytes = bytes.length
  | length :: lengths =>
      r.remainBytes = bytes.length ∧
        if length ≤ bytes.length then
          ∃ r', r.readChecked length = .read (bytes.take length) r' ∧
            Reads r' (bytes.drop length) lengths
        else r.readChecked length = .failed r ∧ Reads r bytes lengths

end Reader

/-- No empty chunk stands before one that is not. -/
def Tight (chunks : List Bytes) : Prop := chunks.Pairwise fun a b => a = [] → b = []

instance (chunks : List Bytes) : Decidable (Tight chunks) :=
  inferInstanceAs (Decidable (chunks.Pairwise fun a b => a = [] → b = []))

section Tightness

variable {chunks : List Bytes} {chunk : Bytes}

theorem tight_cons :
    Tight (chunk :: chunks) ↔ (chunk = [] → chunks.flatten = []) ∧ Tight chunks := by
  rw [Tight, List.pairwise_cons, List.flatten_eq_nil_iff]
  refine and_congr_left' ⟨fun h hchunk other hother => h other hother hchunk,
    fun h other hother hchunk => h hchunk other hother⟩

theorem tight_concat_nil : Tight (chunks ++ [[]]) ↔ Tight chunks := by
  rw [Tight, List.pairwise_append]
  refine ⟨And.left, fun h => ⟨h, List.pairwise_singleton _ _, ?_⟩⟩
  intro a _ b hb _
  exact List.mem_singleton.mp hb

theorem tight_of_ne_nil (h : ∀ chunk ∈ chunks, chunk ≠ []) : Tight chunks :=
  List.pairwise_of_forall_mem_list fun a ha _ _ hnil => absurd hnil (h a ha)

theorem tight_setFragments (contents : List Bytes) :
    Tight (setFragments (contents.map some)) ↔ Tight contents := by
  have hcontents : (contents.map some).map (·.getD []) = contents := by
    rw [List.map_map]
    exact List.map_id _
  unfold setFragments
  rw [hcontents]
  dsimp only
  split
  · rename_i hlast
    obtain ⟨front, rfl⟩ := List.getLast?_eq_some_iff.mp hlast
    rw [List.dropLast_concat, tight_concat_nil]
  · exact Iff.rfl

end Tightness

namespace Reader

variable {r : Reader} {remain : ℕ}

/-- The bytes ahead of a reader. -/
def ahead (r : Reader) : Bytes := r.payload ++ r.chunks.flatten

theorem nextChunk_of_tight (h : Tight r.chunks) (hpos : 0 < r.ahead.length) :
    ∃ r', r.nextChunk = some r' ∧ r'.payload ≠ [] ∧ r'.ahead = r.ahead ∧
      r'.remainBytes = r.remainBytes ∧ Tight r'.chunks := by
  obtain ⟨chunks, payload, remainBytes⟩ := r
  unfold nextChunk
  by_cases hpayload : payload = []
  · subst hpayload
    cases chunks with
    | nil => exact absurd hpos (Nat.lt_irrefl 0)
    | cons chunk chunks =>
        obtain ⟨hchunk, hchunks⟩ := tight_cons.mp h
        refine ⟨⟨chunks, chunk, remainBytes⟩, rfl, ?_, rfl, rfl, hchunks⟩
        rintro rfl
        have hempty : (ahead ⟨[] :: chunks, [], remainBytes⟩).length = 0 := by
          simp [ahead, hchunk rfl]
        exact absurd hpos (by rw [hempty]; exact Nat.lt_irrefl 0)
  · exact ⟨⟨chunks, payload, remainBytes⟩, if_neg hpayload, hpayload, rfl, rfl, h⟩

theorem readLoop_of_tight (remain : ℕ) (r : Reader) (h : Tight r.chunks)
    (hle : remain ≤ r.ahead.length) :
    ∃ r', r.readLoop remain = .read (r.ahead.take remain) r' ∧ r'.ahead = r.ahead.drop remain ∧
      r'.remainBytes = r.remainBytes - remain ∧ Tight r'.chunks := by
  induction remain using Nat.strong_induction_on generalizing r with
  | _ remain ih =>
    rw [readLoop]
    by_cases hzero : remain = 0
    · subst hzero
      exact ⟨r, if_pos rfl, rfl, rfl, h⟩
    · obtain ⟨r₁, hnext, hpayload, hahead, hremain, htight⟩ := nextChunk_of_tight h (by omega)
      have hpos := List.length_pos_iff.mpr hpayload
      rw [if_neg hzero, hnext]
      dsimp only
      rw [if_neg (by omega)]
      set reading := min r₁.payload.length remain with hreading
      set front := r₁.payload.take reading with hfront
      set r₂ : Reader := { r₁ with
        payload := r₁.payload.drop reading
        remainBytes := r₁.remainBytes - reading } with hr₂
      have hsplit : r.ahead = front ++ r₂.ahead := by
        rw [← hahead, ahead, ahead, ← List.append_assoc, hfront, hr₂, List.take_append_drop]
      have htake : remain = front.length + (remain - reading) := by
        rw [hfront, List.length_take]
        omega
      have hlength : r.ahead.length = reading + r₂.ahead.length := by
        rw [hsplit, List.length_append]
        omega
      obtain ⟨r₃, hread, hrest, hremain₃, htight₃⟩ := ih (remain - reading) (by omega) r₂ htight
        (by omega)
      refine ⟨r₃, ?_, ?_, ?_, htight₃⟩
      · rw [hread, ReadOutcome.append, hsplit]
        conv_rhs => rw [htake, List.take_length_add_append]
      · rw [hrest, hsplit]
        conv_rhs => rw [htake, List.drop_length_add_append]
      · rw [hremain₃, hr₂, hremain]
        change r.remainBytes - reading - (remain - reading) = _
        omega

theorem readLoop_of_not_tight (remain : ℕ) (r : Reader) (h : ¬ Tight r.chunks)
    (hall : remain = r.ahead.length) : r.readLoop remain = .assertion := by
  induction remain using Nat.strong_induction_on generalizing r with
  | _ remain ih =>
    obtain ⟨chunks, payload, remainBytes⟩ := r
    have hflatten : 0 < chunks.flatten.length := by
      by_contra hnot
      have hnil := List.length_eq_zero_iff.mp (Nat.eq_zero_of_not_pos hnot)
      refine h (List.pairwise_of_forall_mem_list fun a _ b hb _ => ?_)
      exact List.flatten_eq_nil_iff.mp hnil b hb
    rw [ahead, List.length_append] at hall
    dsimp only at h hall
    have hstep : ∀ (chunk : Bytes) (chunks : List Bytes), chunk ≠ [] → ¬ Tight chunks →
        remain = chunk.length + chunks.flatten.length →
        (if min chunk.length remain = 0 then ReadOutcome.assertion
          else ((⟨chunks, chunk.drop (min chunk.length remain),
            remainBytes - min chunk.length remain⟩ : Reader).readLoop
              (remain - min chunk.length remain)).append
                (chunk.take (min chunk.length remain))) = .assertion := by
      intro chunk chunks hchunk htight hremain
      have hpos := List.length_pos_iff.mpr hchunk
      rw [Nat.min_eq_left (by omega), if_neg (by omega), ih _ (by omega) _ htight]
      · rfl
      · rw [ahead, List.drop_length, List.nil_append]
        dsimp only
        omega
    rw [readLoop, if_neg (by omega), nextChunk]
    by_cases hpayload : payload = []
    · rw [if_pos hpayload]
      subst hpayload
      cases chunks with
      | nil => exact absurd hflatten (Nat.lt_irrefl 0)
      | cons chunk chunks =>
          by_cases hchunk : chunk = []
          · subst hchunk
            rfl
          · refine hstep chunk chunks hchunk (fun htight => h ?_) ?_
            · exact tight_cons.mpr ⟨fun hnil => absurd hnil hchunk, htight⟩
            · rw [hall, List.flatten_cons, List.length_append, List.length_nil, Nat.zero_add]
    · rw [if_neg hpayload]
      exact hstep payload chunks hpayload h hall

theorem reads_of_tight (lengths : List ℕ) (r : Reader) (h : Tight r.chunks)
    (hremain : r.remainBytes = r.ahead.length) : r.Reads r.ahead lengths := by
  induction lengths generalizing r with
  | nil => exact hremain
  | cons length lengths ih =>
      refine ⟨hremain, ?_⟩
      unfold readChecked
      by_cases hle : length ≤ r.ahead.length
      · rw [if_pos hle]
        by_cases hzero : length = 0
        · subst hzero
          exact ⟨r, if_pos rfl, ih r h hremain⟩
        · obtain ⟨r', hread, hahead, hremain', htight⟩ := readLoop_of_tight length r h hle
          refine ⟨r', ?_, ?_⟩
          · rw [if_neg hzero, if_neg (by omega), hread]
          · have hrest := ih r' htight (by rw [hremain', hahead, List.length_drop, hremain])
            rwa [hahead] at hrest
      · rw [if_neg hle]
        refine ⟨?_, ih r h hremain⟩
        rw [if_neg (by omega), if_pos (by omega)]

end Reader

/-- Every sequence of reads of a received parcel is right exactly if no empty fragment of it
stands before one that is not. -/
theorem reads_iff (fragments : List Bytes) :
    (∀ lengths, (Reader.init (setFragments (fragments.map some))).Reads fragments.flatten lengths) ↔
      Tight fragments := by
  have hbytes := bytes_setFragments (fragments.map some)
  rw [receivedBytes_map_some] at hbytes
  rw [← tight_setFragments, ← hbytes]
  generalize setFragments (fragments.map some) = chunks
  have hremain : (Reader.init chunks).remainBytes = (Reader.init chunks).ahead.length := by
    simp [Reader.init, Reader.ahead, List.length_flatten]
  constructor
  · intro hreads
    by_contra htight
    obtain ⟨-, hall⟩ := hreads [chunks.flatten.length]
    rw [if_pos (Nat.le_refl _)] at hall
    obtain ⟨r', hread, -⟩ := hall
    have hassertion := Reader.readLoop_of_not_tight _ (Reader.init chunks) htight rfl
    have hpos : chunks.flatten.length ≠ 0 := by
      intro hzero
      have hnil := List.length_eq_zero_iff.mp hzero
      refine htight (List.pairwise_of_forall_mem_list fun a _ b hb _ => ?_)
      exact List.flatten_eq_nil_iff.mp hnil b hb
    rw [Reader.readChecked, if_neg hpos, if_neg (by rw [hremain]; exact Nat.lt_irrefl _)] at hread
    rw [show chunks.flatten.length = (Reader.init chunks).ahead.length from rfl,
      hassertion] at hread
    cases hread
  · intro htight lengths
    exact Reader.reads_of_tight lengths (Reader.init chunks) htight hremain

/-- A parcel of three fragments, the second one without content. -/
def emptyFragmentPayloads : List (Option Bytes) :=
  [⟨.unreliable, 1, 0, 2, 5⟩, ⟨.unreliable, 1, 1, 2, 5⟩, ⟨.unreliable, 1, 2, 2, 5⟩].zipWith
    (fun (m : FragmentMeta) content => some (m.bytes ++ content))
    [[1], [], 2 :: Channel.sampleChecksum.digest [1, 2]]

/-- A receiver completes with an empty fragment in the middle, and reading both bytes of the
parcel fails the assertion. -/
theorem not_reads_emptyFragment :
    ((ModeReceiver.run Channel.sampleChecksum (fun _ => 0) emptyFragmentPayloads 0
        [.fragment 1, .fragment 2, .task, .task]).map fun r =>
          (r.receiver.stage, r.receiver.failed, r.receiver.fragments)) =
        some (.complete, false, [[1], [], [2]].map some) ∧
      ¬ ∀ lengths,
        (Reader.init (setFragments ([[1], [], [2]].map some))).Reads
          [[1], [], [2]].flatten lengths := by
  refine ⟨by decide +kernel, fun hreads => ?_⟩
  obtain ⟨-, hread⟩ := hreads [2]
  rw [if_pos (by decide)] at hread
  obtain ⟨r', hread, -⟩ := hread
  have hassertion : (Reader.init (setFragments ([[1], [], [2]].map some))).readChecked 2 =
      .assertion := by
    decide +kernel
  rw [hassertion] at hread
  cases hread

end Delivery

end PomeloUdp
