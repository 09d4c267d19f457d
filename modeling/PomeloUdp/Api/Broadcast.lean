import PomeloUdp.Api.Stack
import PomeloUdp.Library.TwoPointer

/-!
# Sending a message to many sessions

`pomelo_socket_send` works on the caller's array: it brings the connected sessions to the front
and, among these, the builtin ones before those of plugins. The first group goes to the
transporter, and what is behind it to the plugins, which is more than the second group as soon as
a session is not connected (`passes_iff`). At the end every session is put back to its place.
-/

namespace PomeloUdp

namespace Api

namespace Broadcast

open TwoPointer

/-- `pomelo_session_type`. -/
inductive SessionType where
  | builtin
  | plugin
  deriving DecidableEq, Repr

/-- What a broadcast reads of a `pomelo_session_t`: its state, its type, and whether its plugin
has a `session_on_send_callback`. -/
structure SessionInfo where
  state : SessionState
  type : SessionType
  sessionOnSendCallback : Bool
  deriving DecidableEq, Repr

/-- What a call of `pomelo_socket_send` does: the sessions that it passes to
`pomelo_socket_send_plugin` and to `pomelo_socket_send_builtin`, the sent count of the message,
whether it dispatches the result itself, and the caller's array, unless it is not put back in
order. -/
structure SendResult (ι : Type) (n : ℕ) where
  pluginSessions : List ι
  builtinSessions : List ι
  nsent : ℕ
  dispatched : Bool
  sessions : Option (Vector ι n)

variable {ι : Type} {n : ℕ}

/-- `pomelo_socket_send_plugin`. -/
def sendPlugin (info : ι → SessionInfo) (sessions : List ι) : ℕ :=
  sessions.countP fun s => (info s).sessionOnSendCallback

/-- The original index that is left in each session, from the `i`-th on. -/
def setOriginalIndex [DecidableEq ι] : ℕ → List ι → (ι → ℕ) → ι → ℕ
  | _, [], index => index
  | i, s :: sessions, index => setOriginalIndex (i + 1) sessions (Function.update index s i)

/-- The end of `pomelo_socket_send`: the sessions from the `i`-th on go back to their places. The
loop of the source has no bound; `fuel` counts its rounds. -/
def restore (index : ι → ℕ) : ℕ → Vector ι n → ℕ → Option (Vector ι n)
  | 0, _, _ => none
  | fuel + 1, v, i =>
      if hi : i < n then
        if index v[i] = i then restore index fuel v (i + 1)
        else if hj : index v[i] < n then restore index fuel (v.swap i (index v[i])) i
        else none
      else some v

/-- A session that can be sent to. -/
def isConnected (info : ι → SessionInfo) (s : ι) : Bool := (info s).state == .connected

/-- A session of the transporter. -/
def isBuiltin (info : ι → SessionInfo) (s : ι) : Bool := (info s).type == .builtin

variable [DecidableEq ι]

/-- `pomelo_socket_send`. `builtinOk` says whether `pomelo_socket_send_builtin` succeeds. -/
def send (info : ι → SessionInfo) (nchannels channelIndex : ℕ) (builtinOk : Bool)
    (sessions : Vector ι n) : SendResult ι n :=
  if nchannels ≤ channelIndex then ⟨[], [], 0, true, some sessions⟩
  else if hn : n = 0 then ⟨[], [], 0, true, some sessions⟩
  else
    let index := setOriginalIndex 0 sessions.toList fun _ => 0
    let connected := partition (isConnected info) sessions 0 (n - 1) (by omega)
    let nconnected := frontCount (isConnected info) connected
    have hle : nconnected ≤ n := (arranged_frontCount _ _ _ (Nat.pos_of_ne_zero hn)).1
    if nconnected = 0 then ⟨[], [], 0, true, some connected.1⟩
    else
      let sorted := partition (isBuiltin info) connected.1 0 (nconnected - 1) (by omega)
      let nbuiltin := frontCount (isBuiltin info) sorted
      let nplugin := n - nbuiltin
      let pluginSessions := (sorted.1.toList.drop nbuiltin).take nplugin
      let builtinSessions := sorted.1.toList.take nbuiltin
      let nsent := if 0 < nplugin then sendPlugin info pluginSessions else 0
      if 0 < nbuiltin ∧ !builtinOk then
        ⟨pluginSessions, builtinSessions, nsent, true, some sorted.1⟩
      else
        ⟨pluginSessions, builtinSessions, nsent, nbuiltin == 0,
          restore index (2 * n + 1) sorted.1 0⟩

/-- The builtin path gets the connected builtin sessions and the plugin path the connected
sessions of plugins. -/
def Passes (info : ι → SessionInfo) (sessions : Vector ι n) (result : SendResult ι n) : Prop :=
  result.builtinSessions.Perm
      (sessions.toList.filter fun s => isConnected info s && isBuiltin info s) ∧
    result.pluginSessions.Perm
      (sessions.toList.filter fun s => isConnected info s && !isBuiltin info s)

instance (info : ι → SessionInfo) (sessions : Vector ι n) (result : SendResult ι n) :
    Decidable (Passes info sessions result) := inferInstanceAs (Decidable (_ ∧ _))

section Groups

variable {info : ι → SessionInfo} {nchannels channelIndex : ℕ} {builtinOk : Bool}
  {sessions : Vector ι n}

omit [DecidableEq ι] in
theorem connected_groups (info : ι → SessionInfo) (sessions : Vector ι n) (hn : n - 1 < n) :
    ((partition (isConnected info) sessions 0 (n - 1) hn).1.toList.take
        (frontCount (isConnected info) (partition (isConnected info) sessions 0 (n - 1) hn))).Perm
        (sessions.toList.filter (isConnected info)) ∧
      ((partition (isConnected info) sessions 0 (n - 1) hn).1.toList.drop
        (frontCount (isConnected info) (partition (isConnected info) sessions 0 (n - 1) hn))).Perm
        (sessions.toList.filter fun s => !isConnected info s) := by
  have h := groups_partition (isConnected info) sessions hn (Nat.zero_lt_of_lt hn)
  have htake : ∀ v : Vector ι n, v.toList.take n = v.toList := fun v =>
    List.take_of_length_le (by simp)
  rwa [htake, htake] at h

omit [DecidableEq ι] in
theorem sorted_groups (info : ι → SessionInfo) (v : Vector ι n) {k : ℕ} (hk : k - 1 < n)
    (hpos : 0 < k) :
    ((partition (isBuiltin info) v 0 (k - 1) hk).1.toList.take
        (frontCount (isBuiltin info) (partition (isBuiltin info) v 0 (k - 1) hk))).Perm
        ((v.toList.take k).filter (isBuiltin info)) ∧
      ((partition (isBuiltin info) v 0 (k - 1) hk).1.toList.drop
        (frontCount (isBuiltin info) (partition (isBuiltin info) v 0 (k - 1) hk))).Perm
        (((v.toList.take k).filter fun s => !isBuiltin info s) ++ v.toList.drop k) := by
  have h := groups_partition (isBuiltin info) v hk hpos
  have hle := (arranged_frontCount (isBuiltin info) v hk hpos).1
  have hrest := (perm_take_partition (isBuiltin info) v hk hpos).2
  refine ⟨h.1, ?_⟩
  rw [← hrest]
  conv_lhs => rw [← List.take_append_drop k (partition (isBuiltin info) v 0 (k - 1) hk).1.toList]
  rw [List.drop_append_of_le_length (by
    rw [List.length_take, Vector.length_toList]
    omega)]
  exact h.2.append_right _

omit [DecidableEq ι] in
theorem frontCount_eq_zero {hn : n - 1 < n}
    (hzero : frontCount (isConnected info)
      (partition (isConnected info) sessions 0 (n - 1) hn) = 0) :
    ∀ s ∈ sessions.toList, isConnected info s = false := by
  have h := (connected_groups info sessions hn).1
  rw [hzero, List.take_zero] at h
  simpa using List.filter_eq_nil_iff.mp h.nil_eq.symm

theorem send_nothing (hnone : nchannels ≤ channelIndex ∨
      ∀ s ∈ sessions.toList, isConnected info s = false) :
    (send info nchannels channelIndex builtinOk sessions).builtinSessions = [] ∧
      (send info nchannels channelIndex builtinOk sessions).pluginSessions = [] := by
  rw [send]
  split
  · exact ⟨rfl, rfl⟩
  next hchannel =>
    split
    · exact ⟨rfl, rfl⟩
    next hn =>
      have hgroups := connected_groups info sessions (Nat.sub_one_lt hn)
      have hfilter : sessions.toList.filter (isConnected info) = [] :=
        List.filter_eq_nil_iff.mpr fun s hs => by simp [hnone.resolve_left hchannel s hs]
      have hlength := hgroups.1.length_eq
      have hle := (arranged_frontCount (isConnected info) sessions (Nat.sub_one_lt hn)
        (Nat.pos_of_ne_zero hn)).1
      rw [hfilter, List.length_take, Vector.length_toList, Nat.min_eq_left hle,
        List.length_nil] at hlength
      dsimp only
      rw [if_pos hlength]
      exact ⟨rfl, rfl⟩

theorem send_groups (builtinOk : Bool) (hchannel : channelIndex < nchannels)
    (hsome : ∃ s ∈ sessions.toList, isConnected info s = true) :
    (send info nchannels channelIndex builtinOk sessions).builtinSessions.Perm
        (sessions.toList.filter fun s => isConnected info s && isBuiltin info s) ∧
      (send info nchannels channelIndex builtinOk sessions).pluginSessions.Perm
        ((sessions.toList.filter fun s => isConnected info s && !isBuiltin info s) ++
          sessions.toList.filter fun s => !isConnected info s) := by
  obtain ⟨s, hs, hconnected⟩ := hsome
  have hn : n ≠ 0 := by
    rintro rfl
    exact absurd hs (by simp [sessions.eq_empty])
  rw [send, if_neg (not_le.mpr hchannel), dif_neg hn]
  dsimp only
  split
  next hzero =>
    exact absurd hconnected (by simp [frontCount_eq_zero hzero s hs])
  next hpos =>
    have hconnected := connected_groups info sessions (Nat.sub_one_lt hn)
    have hle := (arranged_frontCount (isConnected info) sessions (Nat.sub_one_lt hn)
      (Nat.pos_of_ne_zero hn)).1
    have hsorted := sorted_groups info
      (partition (isConnected info) sessions 0 (n - 1) (Nat.sub_one_lt hn)).1 (by omega)
      (Nat.pos_of_ne_zero hpos)
    have hbuiltin := hsorted.1.trans (hconnected.1.filter _)
    have hplugin := hsorted.2.trans ((hconnected.1.filter _).append hconnected.2)
    rw [List.filter_filter] at hbuiltin hplugin
    simp only [Bool.and_comm (isConnected info _)]
    have hall : ∀ l : List ι, l.length = n → ∀ b, (l.drop b).take (n - b) = l.drop b :=
      fun l hl b => List.take_of_length_le (by rw [List.length_drop, hl])
    rw [← hall _ (Vector.length_toList ..)] at hplugin
    split
    · exact ⟨hbuiltin, hplugin⟩
    · exact ⟨hbuiltin, hplugin⟩

omit [DecidableEq ι] in
theorem passes_nothing_iff {result : SendResult ι n}
    (hnothing : result.builtinSessions = [] ∧ result.pluginSessions = []) :
    Passes info sessions result ↔ ∀ s ∈ sessions.toList, isConnected info s = false := by
  rw [Passes, hnothing.1, hnothing.2]
  constructor
  · rintro ⟨hbuiltin, hplugin⟩ s hs
    have hbuiltin := List.filter_eq_nil_iff.mp hbuiltin.nil_eq.symm s hs
    have hplugin := List.filter_eq_nil_iff.mp hplugin.nil_eq.symm s hs
    cases hconnected : isConnected info s with
    | true => cases htype : isBuiltin info s <;> simp [hconnected, htype] at hbuiltin hplugin
    | false => rfl
  · intro hnone
    have hempty : ∀ p : ι → Bool,
        sessions.toList.filter (fun s => isConnected info s && p s) = [] :=
      fun p => List.filter_eq_nil_iff.mpr fun s hs => by simp [hnone s hs]
    rw [hempty, hempty]
    exact ⟨.refl _, .refl _⟩

/-- The two paths get what they should exactly if all sessions are connected and the channel
exists, or no session is connected. -/
theorem passes_iff :
    Passes info sessions (send info nchannels channelIndex builtinOk sessions) ↔
      (channelIndex < nchannels ∧ ∀ s ∈ sessions.toList, isConnected info s = true) ∨
        ∀ s ∈ sessions.toList, isConnected info s = false := by
  by_cases hnone : ∀ s ∈ sessions.toList, isConnected info s = false
  · rw [passes_nothing_iff (send_nothing (.inr hnone))]
    exact iff_of_true hnone (.inr hnone)
  · rw [or_iff_left hnone]
    by_cases hchannel : channelIndex < nchannels
    · have hsome : ∃ s ∈ sessions.toList, isConnected info s = true := by
        simpa only [not_forall, Bool.not_eq_false, exists_prop] using hnone
      obtain ⟨hbuiltin, hplugin⟩ := send_groups builtinOk hchannel hsome
      rw [Passes, and_iff_right hbuiltin, and_iff_right hchannel]
      constructor
      · intro h
        have hlength := (hplugin.symm.trans h).length_eq
        rw [List.length_append] at hlength
        have hempty := List.length_eq_zero_iff.mp (by omega :
          (sessions.toList.filter fun s => !isConnected info s).length = 0)
        simpa only [List.filter_eq_nil_iff, Bool.not_eq_true', Bool.not_eq_false] using hempty
      · intro hall
        have hempty : (sessions.toList.filter fun s => !isConnected info s) = [] :=
          List.filter_eq_nil_iff.mpr fun s hs => by simp [hall s hs]
        rwa [hempty, List.append_nil] at hplugin
    · rw [passes_nothing_iff (send_nothing (.inl (not_lt.mp hchannel)))]
      exact iff_of_false hnone fun h => hchannel h.1

/-- A builtin session that is connected and one that is not, in a socket with one channel: the
second goes to the plugins. -/
theorem not_passes_disconnected :
    ¬ Passes (fun s : Bool => ⟨if s then .connected else .disconnected, .builtin, false⟩)
      #v[true, false]
      (send (fun s : Bool => ⟨if s then .connected else .disconnected, .builtin, false⟩) 1 0 true
        #v[true, false]) := by
  decide +kernel

end Groups

section Restore

variable {index : ι → ℕ} {v w : Vector ι n}

/-- The slots whose session is not the one it should be. -/
def misplaced (v w : Vector ι n) : Finset (Fin n) :=
  Finset.univ.filter fun k => v[k] ≠ w[k]

theorem card_misplaced_le (v w : Vector ι n) : (misplaced v w).card ≤ n :=
  (Finset.card_le_univ _).trans (Fintype.card_fin n).le

omit [DecidableEq ι] in
theorem getElem_inj (hnodup : v.toList.Nodup) {i j : ℕ} {hi : i < n} {hj : j < n}
    (heq : v[i] = v[j]) : i = j := by
  rw [← Vector.getElem_toList (by simpa), ← Vector.getElem_toList (by simpa)] at heq
  exact (List.Nodup.getElem_inj_iff hnodup).mp heq

theorem card_misplaced_swap {i j : ℕ} (hi : i < n) (hj : j < n) (hv : v.toList.Nodup)
    (hw : w.toList.Nodup) (hne : j ≠ i) (hplace : v[i] = w[j]) :
    (misplaced (v.swap i j) w).card < (misplaced v w).card := by
  have hmem : (⟨j, hj⟩ : Fin n) ∈ misplaced v w := by
    simp only [misplaced, Finset.mem_filter, Finset.mem_univ, true_and]
    exact fun heq => hne (getElem_inj hv (heq.trans hplace.symm))
  apply Finset.card_lt_card
  refine ⟨fun k hk => ?_, fun hsub => ?_⟩
  · simp only [misplaced, Finset.mem_filter, Finset.mem_univ, true_and, Fin.getElem_fin] at hk ⊢
    by_cases hki : (k : ℕ) = i
    · simp only [hki, hplace]
      exact fun heq => hne (getElem_inj hw heq)
    · by_cases hkj : (k : ℕ) = j
      · simp only [hkj, Vector.getElem_swap_right, hplace, ne_eq, not_true_eq_false] at hk
      · rwa [Vector.getElem_swap_of_ne hki hkj] at hk
  · have hswap := hsub hmem
    simp [misplaced, hplace] at hswap

theorem restore_eq (hw : w.toList.Nodup) (hindex : ∀ k (hk : k < n), index w[k] = k)
    (fuel : ℕ) {i : ℕ} (hperm : v.Perm w) (hdone : ∀ k (hk : k < n), k < i → v[k] = w[k])
    (hfuel : n - i + (misplaced v w).card < fuel) : restore index fuel v i = some w := by
  induction fuel generalizing v i with
  | zero => exact absurd hfuel (Nat.not_lt_zero _)
  | succ fuel ih =>
      have hv : v.toList.Nodup := hperm.toList.nodup_iff.mpr hw
      rw [restore]
      split
      next hi =>
        obtain ⟨j, hj, hplace⟩ := Vector.mem_iff_getElem.mp
          (hperm.mem_iff.mp (Vector.getElem_mem hi))
        have hij : index v[i] = j := by rw [← hplace, hindex j hj]
        split
        next heq =>
          obtain rfl : j = i := hij.symm.trans heq
          apply ih hperm _ (by omega)
          intro k hk hlt
          rcases Nat.lt_succ_iff_lt_or_eq.mp hlt with hlt | rfl
          · exact hdone k hk hlt
          · exact hplace.symm
        next hne =>
          rw [hij] at hne
          simp only [hij]
          rw [dif_pos hj]
          have hcard := card_misplaced_swap hi hj hv hw hne hplace.symm
          apply ih ((Vector.swap_perm hi hj).trans hperm) _ (by omega)
          intro k hk hlt
          have hkj : k ≠ j := by
            rintro rfl
            exact hlt.ne (getElem_inj hv ((hdone k hk hlt).trans hplace))
          rw [Vector.getElem_swap_of_ne hlt.ne hkj]
          exact hdone k hk hlt
      next hi =>
        congr 1
        exact Vector.ext fun k hk => hdone k hk (by omega)

theorem setOriginalIndex_of_notMem {s : ι} (i : ℕ) {l : List ι} (index : ι → ℕ) (hs : s ∉ l) :
    setOriginalIndex i l index s = index s := by
  induction l generalizing i index with
  | nil => rfl
  | cons t l ih =>
      obtain ⟨hne, hs⟩ := List.ne_and_not_mem_of_not_mem_cons hs
      rw [setOriginalIndex, ih _ _ hs, Function.update_of_ne hne]

theorem setOriginalIndex_getElem (i : ℕ) {l : List ι} (index : ι → ℕ) (hl : l.Nodup) (k : ℕ)
    (hk : k < l.length) : setOriginalIndex i l index l[k] = i + k := by
  induction l generalizing i index k with
  | nil => exact absurd hk (Nat.not_lt_zero _)
  | cons t l ih =>
      obtain ⟨ht, hl⟩ := List.nodup_cons.mp hl
      rw [setOriginalIndex]
      cases k with
      | zero => rw [List.getElem_cons_zero, setOriginalIndex_of_notMem _ _ ht,
          Function.update_self, Nat.add_zero]
      | succ k =>
          rw [List.getElem_cons_succ, ih _ _ hl k (by simpa using hk)]
          omega

omit [DecidableEq ι] in
theorem restore_some {fuel i : ℕ} (hdone : ∀ k (hk : k < n), k < i → index v[k] = k)
    (h : restore index fuel v i = some w) : w.Perm v ∧ ∀ k (hk : k < n), index w[k] = k := by
  induction fuel generalizing v i with
  | zero => cases h
  | succ fuel ih =>
      rw [restore] at h
      split at h
      next hi =>
        split at h
        next heq =>
          apply ih _ h
          intro k hk hlt
          rcases Nat.lt_succ_iff_lt_or_eq.mp hlt with hlt | rfl
          · exact hdone k hk hlt
          · exact heq
        next hne =>
          split at h
          next hj =>
            obtain ⟨hperm, hindex⟩ := ih (v := v.swap i (index v[i])) (fun k hk hlt => by
              -- the session that goes to its place may stand in front of the `i`-th one
              by_cases hkj : k = index v[i]
              · subst hkj
                rw [Vector.getElem_swap_right]
              · rw [Vector.getElem_swap_of_ne hlt.ne hkj]
                exact hdone k hk hlt) h
            exact ⟨hperm.trans (Vector.swap_perm hi hj), hindex⟩
          next => cases h
      next hi =>
        obtain rfl := Option.some.inj h
        exact ⟨.refl _, fun k hk => hdone k hk (by omega)⟩

omit [DecidableEq ι] in
theorem restore_of_not_nodup (index : ι → ℕ) (hdup : ¬ v.toList.Nodup) (fuel : ℕ) :
    restore index fuel v 0 = none := by
  rw [Option.eq_none_iff_forall_ne_some]
  intro w hw
  obtain ⟨hperm, hindex⟩ := restore_some (fun k _ hk => absurd hk (Nat.not_lt_zero k)) hw
  refine hdup (hperm.toList.nodup_iff.mp (List.nodup_iff_injective_get.mpr fun i j hij => ?_))
  have hi := hindex i (by simpa using i.isLt)
  have hj := hindex j (by simpa using j.isLt)
  rw [← Vector.getElem_toList i.isLt] at hi
  rw [← Vector.getElem_toList j.isLt] at hj
  exact Fin.ext (hi.symm.trans ((congrArg index hij).trans hj))

theorem restore_setOriginalIndex_iff {sessions : Vector ι n} (hperm : v.Perm sessions) :
    restore (setOriginalIndex 0 sessions.toList fun _ => 0) (2 * n + 1) v 0 = some sessions ↔
      sessions.toList.Nodup := by
  constructor
  · intro h
    by_contra hdup
    rw [restore_of_not_nodup _ (by rwa [hperm.toList.nodup_iff])] at h
    cases h
  · intro hnodup
    refine restore_eq hnodup (fun k hk => ?_) _ hperm
      (fun k _ hk => absurd hk (Nat.not_lt_zero k)) ?_
    · have h := setOriginalIndex_getElem 0 (fun _ => 0) hnodup k (by simpa)
      rwa [Vector.getElem_toList, Nat.zero_add] at h
    · rw [Nat.lt_succ_iff, Nat.two_mul]
      exact Nat.add_le_add (Nat.sub_le _ _) (card_misplaced_le _ _)

end Restore

section GivesBack

variable {info : ι → SessionInfo} {nchannels channelIndex : ℕ} {builtinOk : Bool}
  {sessions : Vector ι n}

/-- The group of a session in the order that the two partitions make. -/
def group (info : ι → SessionInfo) (s : ι) : ℕ :=
  if isConnected info s then if isBuiltin info s then 0 else 1 else 2

/-- The array is in that order: the connected builtin sessions, the connected ones of plugins
and the ones that are not connected. -/
def Grouped (info : ι → SessionInfo) (sessions : Vector ι n) : Prop :=
  sessions.toList.Pairwise fun s t => group info s ≤ group info t

instance (info : ι → SessionInfo) (sessions : Vector ι n) : Decidable (Grouped info sessions) :=
  inferInstanceAs (Decidable (List.Pairwise ..))

/-- `pomelo_socket_send_builtin` is called and fails. -/
def FailsAtBuiltin (info : ι → SessionInfo) (builtinOk : Bool) (sessions : Vector ι n) : Prop :=
  builtinOk = false ∧ ∃ s ∈ sessions.toList, (isConnected info s && isBuiltin info s) = true

instance (info : ι → SessionInfo) (builtinOk : Bool) (sessions : Vector ι n) :
    Decidable (FailsAtBuiltin info builtinOk sessions) :=
  inferInstanceAs (Decidable (_ ∧ _))

omit [DecidableEq ι] in
theorem Grouped.le (h : Grouped info sessions) {i j : ℕ} (hi : i < n) (hj : j < n) (hlt : i < j) :
    group info sessions[i] ≤ group info sessions[j] := by
  have := List.pairwise_iff_getElem.mp h i j (by simpa) (by simpa) hlt
  simpa only [Vector.getElem_toList] using this

omit [DecidableEq ι] in
theorem group_partition {v : Vector ι n} {k : ℕ} (hk : k - 1 < n) (hpos : 0 < k)
    (hfront : ∀ i (hi : i < n), i < k → isConnected info v[i] = true)
    (hback : ∀ i (hi : i < n), k ≤ i → isConnected info v[i] = false) (i : ℕ) (hi : i < n) :
    group info (partition (isBuiltin info) v 0 (k - 1) hk).1[i] =
      if i < frontCount (isBuiltin info) (partition (isBuiltin info) v 0 (k - 1) hk) then 0
      else if i < k then 1 else 2 := by
  obtain ⟨hle, hbuiltin, hplugin⟩ := arranged_frontCount (isBuiltin info) v hk hpos
  have hconnected : i < k → isConnected info (partition (isBuiltin info) v 0 (k - 1) hk).1[i] =
      true := by
    intro hik
    have hmem : (partition (isBuiltin info) v 0 (k - 1) hk).1[i] ∈
        (partition (isBuiltin info) v 0 (k - 1) hk).1.toList.take k :=
      List.mem_take_iff_getElem.mpr ⟨i, by simpa using ⟨hik, hi⟩, by simp⟩
    obtain ⟨j, hj, heq⟩ := List.mem_take_iff_getElem.mp
      ((perm_take_partition (isBuiltin info) v hk hpos).1.mem_iff.mp hmem)
    rw [← heq, Vector.getElem_toList]
    exact hfront j (by simp at hj; omega) (by omega)
  unfold group
  by_cases hib : i < frontCount (isBuiltin info) (partition (isBuiltin info) v 0 (k - 1) hk)
  · rw [hconnected (by omega), hbuiltin i hi hib, if_pos rfl, if_pos rfl, if_pos hib]
  · rw [if_neg hib]
    by_cases hik : i < k
    · rw [hconnected hik, hplugin i hi (not_lt.mp hib) hik, if_pos rfl,
        if_neg Bool.false_ne_true, if_pos hik]
    · rw [partition_of_lt (by omega), hback i hi (not_lt.mp hik), if_neg Bool.false_ne_true,
        if_neg hik]

omit [DecidableEq ι] in
theorem grouped_partition {v : Vector ι n} {k : ℕ} (hk : k - 1 < n) (hpos : 0 < k)
    (hfront : ∀ i (hi : i < n), i < k → isConnected info v[i] = true)
    (hback : ∀ i (hi : i < n), k ≤ i → isConnected info v[i] = false) :
    Grouped info (partition (isBuiltin info) v 0 (k - 1) hk).1 := by
  refine List.pairwise_iff_getElem.mpr fun i j hi hj hlt => ?_
  rw [Vector.length_toList] at hi hj
  rw [Vector.getElem_toList, Vector.getElem_toList, group_partition hk hpos hfront hback i hi,
    group_partition hk hpos hfront hback j hj]
  split_ifs <;> omega

omit [DecidableEq ι] in
theorem isConnected_of_group_le {s t : ι} (h : group info s ≤ group info t)
    (ht : isConnected info t = true) : isConnected info s = true := by
  unfold group at h
  rw [ht, if_pos rfl] at h
  by_contra hs
  rw [if_neg hs] at h
  split_ifs at h <;> omega

omit [DecidableEq ι] in
theorem isBuiltin_of_group_le {s t : ι} (h : group info s ≤ group info t)
    (hs : isConnected info s = true) (ht : isConnected info t = true)
    (hbuiltin : isBuiltin info t = true) : isBuiltin info s = true := by
  unfold group at h
  rw [hs, ht, hbuiltin, if_pos rfl, if_pos rfl, if_pos rfl] at h
  by_contra hplugin
  rw [if_neg hplugin] at h
  omega

omit [DecidableEq ι] in
theorem partition_eq_iff (hn : n - 1 < n) (hk : frontCount (isConnected info)
      (partition (isConnected info) sessions 0 (n - 1) hn) - 1 < n)
    (hpos : 0 < frontCount (isConnected info)
      (partition (isConnected info) sessions 0 (n - 1) hn)) :
    (partition (isBuiltin info) (partition (isConnected info) sessions 0 (n - 1) hn).1 0
        (frontCount (isConnected info)
          (partition (isConnected info) sessions 0 (n - 1) hn) - 1) hk).1 = sessions ↔
      Grouped info sessions := by
  obtain ⟨hle, hfront, hback⟩ := arranged_frontCount (isConnected info) sessions hn (by omega)
  constructor
  · intro heq
    have := grouped_partition hk hpos hfront fun i hi hki => hback i hi hki hi
    rwa [heq] at this
  · intro hgrouped
    have hconnected : (partition (isConnected info) sessions 0 (n - 1) hn).1 = sessions :=
      partition_of_forall_lt (fun i j hi hj hlt _ =>
        isConnected_of_group_le (hgrouped.le hi hj hlt)) hn
    rw [hconnected] at hfront
    refine (partition_of_forall_lt (fun i j hi hj hlt hle hbuiltin => ?_) hk).trans hconnected
    rw [hconnected] at hbuiltin ⊢
    exact isBuiltin_of_group_le (hgrouped.le hi hj hlt) (hfront i hi (by omega))
      (hfront j hj (by omega)) hbuiltin

omit [DecidableEq ι] in
theorem frontCount_pos_iff (hn : n - 1 < n) (hk : frontCount (isConnected info)
      (partition (isConnected info) sessions 0 (n - 1) hn) - 1 < n)
    (hpos : 0 < frontCount (isConnected info)
      (partition (isConnected info) sessions 0 (n - 1) hn)) :
    0 < frontCount (isBuiltin info) (partition (isBuiltin info)
        (partition (isConnected info) sessions 0 (n - 1) hn).1 0 (frontCount (isConnected info)
          (partition (isConnected info) sessions 0 (n - 1) hn) - 1) hk) ↔
      ∃ s ∈ sessions.toList, (isConnected info s && isBuiltin info s) = true := by
  have hsorted := (sorted_groups info (partition (isConnected info) sessions 0 (n - 1) hn).1 hk
    hpos).1.trans ((connected_groups info sessions hn).1.filter _)
  have hle := (arranged_frontCount (isBuiltin info)
    (partition (isConnected info) sessions 0 (n - 1) hn).1 hk hpos).1
  have hle' := (arranged_frontCount (isConnected info) sessions hn (by omega)).1
  have hlength := hsorted.length_eq
  rw [List.length_take, Vector.length_toList, Nat.min_eq_left (by omega), List.filter_filter]
    at hlength
  rw [hlength, List.length_pos_iff_exists_mem]
  simp only [List.mem_filter, Bool.and_comm]

/-- The array is given back exactly if the call does not come to the partitions, or the builtin
sessions fail and the array was in the order of the two partitions, or they do not fail and no
session stands twice in the array. -/
theorem sessions_send_iff (info : ι → SessionInfo) (nchannels channelIndex : ℕ)
    (builtinOk : Bool) (sessions : Vector ι n) :
    (send info nchannels channelIndex builtinOk sessions).sessions = some sessions ↔
      nchannels ≤ channelIndex ∨ (∀ s ∈ sessions.toList, isConnected info s = false) ∨
        if FailsAtBuiltin info builtinOk sessions then Grouped info sessions
        else sessions.toList.Nodup := by
  rw [send]
  split
  next hchannel => exact iff_of_true rfl (.inl hchannel)
  next hchannel =>
    rw [or_iff_right hchannel]
    split
    next hn =>
      subst hn
      exact iff_of_true rfl (.inl fun s hs => absurd hs (by simp [sessions.eq_empty]))
    next hn =>
      dsimp only
      split
      next hzero =>
        have hnone := frontCount_eq_zero hzero
        refine iff_of_true (congrArg some ?_) (.inl hnone)
        exact partition_of_forall_lt (fun i j _ hj _ _ hconnected =>
          absurd hconnected (by simp [hnone sessions[j] (by simp)])) _
      next hzero =>
        have hpos := Nat.pos_of_ne_zero hzero
        have hle := (arranged_frontCount (isConnected info) sessions (Nat.sub_one_lt hn)
          (Nat.pos_of_ne_zero hn)).1
        have hsome : ¬ ∀ s ∈ sessions.toList, isConnected info s = false := by
          intro hnone
          have h := (connected_groups info sessions (Nat.sub_one_lt hn)).1.length_eq
          rw [List.filter_eq_nil_iff.mpr fun s hs => by simp [hnone s hs], List.length_take,
            Vector.length_toList, List.length_nil] at h
          omega
        rw [or_iff_right hsome]
        have hfails : (0 < frontCount (isBuiltin info) (partition (isBuiltin info)
            (partition (isConnected info) sessions 0 (n - 1) (Nat.sub_one_lt hn)).1 0
              (frontCount (isConnected info) (partition (isConnected info) sessions 0 (n - 1)
                (Nat.sub_one_lt hn)) - 1) (by omega)) ∧ (!builtinOk) = true) ↔
            FailsAtBuiltin info builtinOk sessions := by
          rw [FailsAtBuiltin, frontCount_pos_iff _ _ hpos, Bool.not_eq_true', and_comm]
        by_cases hfail : FailsAtBuiltin info builtinOk sessions
        · rw [if_pos (hfails.mpr hfail), if_pos hfail, Option.some.injEq]
          exact partition_eq_iff _ _ hpos
        · rw [if_neg (mt hfails.mp hfail), if_neg hfail]
          exact restore_setOriginalIndex_iff
            ((perm_partition _ _ _).trans (perm_partition _ _ _))

/-- A connected builtin session that stands twice in the array: the loop does not end. -/
theorem not_sessions_send_repeated :
    ¬ ∀ (sessions : Vector Bool 2) (builtinOk : Bool),
      (send (fun _ => ⟨.connected, .builtin, false⟩) 1 0 builtinOk sessions).sessions =
        some sessions := by
  intro h
  have hrepeated := h #v[true, true] true
  revert hrepeated
  decide +kernel

end GivesBack

end Broadcast

end Api

end PomeloUdp
