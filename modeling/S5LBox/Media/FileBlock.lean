import S5LBox.Lib.Runs
import S5LBox.Media.Block

/-!
# The read cache of a file

`file_block.c` makes a block of a file: its callbacks read, write and flush through one descriptor.
Reads of at most a line go through a four-way set-associative cache. A line may hold less than it is
long, because a host read may transfer less than it is asked; two lines may be of one offset; and a
line is refilled in place. A write gives up what it may touch before the file changes.

The host is the POSIX one. What it answers in a callback, and when it fails, is given with the
callback.

## Main definitions

* `Session`, `fileReadAt`, `fileWriteAt`, `fileFlushCallback`.
* `Coherent`: what is valid in the cache is in the file.

## Main results

* `Callback.coherent`: a callback leaves the cache coherent.
* `cache_transparent`: what the reads of a session return.
-/

namespace S5LBox.Media

open Runs

/-! ### The session -/

/-- `FILE_BLOCK_READ_CACHE_LINE_BYTES`. -/
abbrev lineBytes : Nat := 16384

/-- `FILE_BLOCK_READ_CACHE_WAYS`. -/
abbrev cacheWays : Nat := 4

/-- `FILE_BLOCK_READ_CACHE_ENTRY_COUNT`. -/
abbrev entryCount : Nat := 4194304 / lineBytes

/-- `FILE_BLOCK_READ_CACHE_SET_COUNT`. -/
abbrev setCount : Nat := entryCount / cacheWays

/-- `EIO`. -/
def eio : Nat := 5

/-- `file_block_read_cache_entry_t`. -/
structure CacheEntry where
  offset : Nat
  lastUse : Nat
  validBytes : Nat
  valid : Bool

/-- `file_block_read_cache_stats_t`. -/
structure CacheStats where
  enabled : Bool
  allocated : Bool
  readCallbacks : Nat
  requestedBytes : Nat
  cacheHits : Nat
  cacheHitBytes : Nat
  cacheMisses : Nat
  cacheBypasses : Nat
  hostReads : Nat
  hostReadBytes : Nat
  invalidatedLines : Nat

/-- `file_block_session_t`, but for the block it makes. `data` is there when it could be
allocated. -/
structure Session where
  expectedSize : Nat
  descriptorOpen : Bool
  lastSystemError : Nat
  active : Bool
  stickyError : Bool
  initialIdentity : Nat × Nat
  data : Option Octets
  entries : Nat → CacheEntry
  clock : Nat
  cacheEnabled : Bool
  stats : CacheStats

/-- What `fstat` answers. -/
inductive Fstat
  | failed (error : Nat)
  | interrupted
  | status (regular : Bool) (size : Int) (links : Nat) (identity : Nat × Nat)

/-- What `pread` answers: octets from the first on, the end of the file, or a failure. Of `r` octets
requested, `moved n` transfers `n + 1`, and no more than `r`. A read that is interrupted or fails has
put nothing into its buffer, so that it leaves the octets of the victim as they were; after a failure
no callback of the session reads them again. -/
inductive HostRead
  | moved (n : Nat)
  | ended
  | interrupted
  | failed (error : Nat)

/-- What `pwrite` answers. Before it fails, it may have written octets from the first on. -/
inductive HostWrite
  | moved (n : Nat)
  | nothing
  | interrupted
  | failed (error : Nat) (written : Nat)

/-- What `fsync` answers. -/
inductive HostSync
  | done
  | interrupted
  | failed (error : Nat)

/-- `counter_add_u64`. -/
def counterAdd (counter amount : Nat) : Nat :=
  if 2 ^ 64 - 1 - counter < amount then 2 ^ 64 - 1 else counter + amount

/-- `session_remember_error`. -/
def Session.rememberError (s : Session) (error : Nat) : Session :=
  { s with
    stickyError := true
    lastSystemError :=
      if s.lastSystemError = 0 then if error ≠ 0 then error else eio else s.lastSystemError }

/-- `session_revalidate`. -/
def sessionRevalidate (s : Session) : Fstat → VmBlockIoStatus × Session
  | .interrupted => (.retry, s)
  | .failed error => (.error, s.rememberError error)
  | .status regular size links identity =>
    if regular = false ∨ size ≠ s.expectedSize then (.error, s.rememberError eio)
    else if links = 0 ∨ identity ≠ s.initialIdentity then (.error, s.rememberError eio)
    else (.ok, s)

/-- `callback_request_valid`. -/
def callbackRequestValid (s : Session) (offset requested : Nat) : Bool :=
  requested ≤ vmBlockMaxCallbackBytes ∧ offset ≤ s.expectedSize ∧
    requested ≤ s.expectedSize - offset ∧ offset < 2 ^ 63

/-! ### The cache -/

/-- An entry changed. -/
def Session.setEntry (s : Session) (index : Nat) (entry : CacheEntry) : Session :=
  { s with entries := fun j => if j = index then entry else s.entries j }

/-- The statistics changed. -/
def Session.count (s : Session) (f : CacheStats → CacheStats) : Session :=
  { s with stats := f s.stats }

/-- `read_cache_touch`. -/
def readCacheTouch (s : Session) (index : Nat) : Session :=
  let clock := if s.clock ≠ 2 ^ 64 - 1 then s.clock + 1 else s.clock
  { s with clock }.setEntry index { s.entries index with lastUse := clock }

/-- A range meets what an entry holds. -/
def CacheEntry.meets (entry : CacheEntry) (offset requested : Nat) : Bool :=
  entry.valid ∧ offset < entry.offset + entry.validBytes ∧ entry.offset < offset + requested

/-- One turn of the loop of `read_cache_invalidate_range`. -/
def giveUpIfMet (offset requested : Nat) (s : Session) (index : Nat) : Session :=
  if (s.entries index).meets offset requested then
    (s.setEntry index { s.entries index with valid := false }).count fun stats =>
      { stats with invalidatedLines := counterAdd stats.invalidatedLines 1 }
  else s

/-- `read_cache_invalidate_range`. -/
def readCacheInvalidateRange (s : Session) (offset requested : Nat) : Session :=
  if s.data.isNone ∨ requested = 0 then s
  else (List.range entryCount).foldl (giveUpIfMet offset requested) s

/-- `host_read_once`: octets of the file from an offset on, to a place of a buffer. -/
def hostReadOnce (s : Session) (file : Octets) (h : HostRead) (offset : Nat) (dst : Octets)
    (place requested : Nat) : (VmBlockIoStatus × Nat) × Octets × Session :=
  let s := s.count fun stats => { stats with hostReads := counterAdd stats.hostReads 1 }
  match h with
  | .moved n =>
    let actual := min (n + 1) requested
    ((.ok, actual), memcpy dst place (fun i => file (offset + i)) actual,
      s.count fun stats => { stats with hostReadBytes := counterAdd stats.hostReadBytes actual })
  | .ended => ((.error, 0), dst, s.rememberError eio)
  | .interrupted => ((.retry, 0), dst, s)
  | .failed error => ((.error, 0), dst, s.rememberError error)

/-- The loop of `read_cache_read` over the ways of a set: the entry that holds the octet, or else
the victim. -/
def scanWays (s : Session) (lineOffset within : Nat) :
    (ways : List Nat) → (victim : Nat) → (foundInvalid : Bool) → Nat ⊕ Nat
  | [], victim, _ => .inr victim
  | index :: ways, victim, foundInvalid =>
    let entry := s.entries index
    if entry.valid ∧ entry.offset = lineOffset ∧ within < entry.validBytes then .inl index
    else if entry.valid = false ∧ foundInvalid = false then
      scanWays s lineOffset within ways index true
    else if foundInvalid = false ∧ entry.lastUse < (s.entries victim).lastUse then
      scanWays s lineOffset within ways index foundInvalid
    else scanWays s lineOffset within ways victim foundInvalid

/-- A read past the cache. -/
def readBypass (s : Session) (file : Octets) (h : HostRead) (offset : Nat) (dst : Octets)
    (requested : Nat) : (VmBlockIoStatus × Nat) × Octets × Session :=
  hostReadOnce
    (s.count fun stats => { stats with cacheBypasses := counterAdd stats.cacheBypasses 1 })
    file h offset dst 0 requested

/-- The end of `read_cache_read`, behind a host read that has put `filled` octets of a line into the
entry `victim`. -/
def readCacheFilled (s : Session) (data file : Octets) (bypass : HostRead)
    (lineOffset victim filled offset : Nat) (dst : Octets) (requested : Nat) :
    (VmBlockIoStatus × Nat) × Octets × Session :=
  let within := offset - lineOffset
  let s := readCacheTouch ({ s with data := some data }.setEntry victim
    { s.entries victim with
      offset := lineOffset, validBytes := filled, valid := decide (filled ≠ 0) }) victim
  if filled ≤ within then
    readBypass (s.setEntry victim { s.entries victim with valid := false }) file bypass offset dst
      requested
  else
    let transferred := min requested (filled - within)
    ((.ok, transferred),
      memcpy dst 0 (fun i => data (victim * lineBytes + within + i)) transferred, s)

/-- `read_cache_read`, over the octets of the cache. `refill` is what the host answers to the read
of a line, `bypass` to a read past the cache. -/
def readCacheRead (s : Session) (data : Octets) (file : Octets) (refill bypass : HostRead)
    (offset : Nat) (dst : Octets) (requested : Nat) :
    (VmBlockIoStatus × Nat) × Octets × Session :=
  let lineOffset := offset / lineBytes * lineBytes
  let within := offset - lineOffset
  let lineLength := min (s.expectedSize - lineOffset) lineBytes
  let first := lineOffset / lineBytes % setCount * cacheWays
  if lineLength - within < requested then readBypass s file bypass offset dst requested
  else
    match scanWays s lineOffset within [first, first + 1, first + 2, first + 3] first false with
    | .inl index =>
      let transferred := min requested ((s.entries index).validBytes - within)
      ((.ok, transferred),
        memcpy dst 0 (fun i => data (index * lineBytes + within + i)) transferred,
        (readCacheTouch s index).count fun stats =>
          { stats with
            cacheHits := counterAdd stats.cacheHits 1
            cacheHitBytes := counterAdd stats.cacheHitBytes transferred })
    | .inr victim =>
      let s := s.count fun stats => { stats with cacheMisses := counterAdd stats.cacheMisses 1 }
      match hostReadOnce s file refill lineOffset data (victim * lineBytes) lineLength with
      | ((.ok, filled), data, s) =>
        readCacheFilled s data file bypass lineOffset victim filled offset dst requested
      | ((status, _), data, s) => ((status, 0), dst, { s with data := some data })

/-! ### The callbacks -/

/-- The checks that come before a transfer; `none` lets it begin. -/
def transferGuard (s : Session) (f : Fstat) (offset requested : Nat) :
    Option VmBlockIoStatus × Session :=
  if ¬s.active ∨ ¬s.descriptorOpen ∨ ¬callbackRequestValid s offset requested then (some .error, s)
  else if requested = 0 then (some (if s.stickyError then .error else .ok), s)
  else if s.stickyError then (some .error, s)
  else
    match sessionRevalidate s f with
    | (.ok, s) => (none, s)
    | (.retry, s) => (some .retry, s)
    | (_, s) => (some .error, s)

/-- `file_read_at`. -/
def fileReadAt (s : Session) (file : Octets) (f : Fstat) (refill bypass : HostRead) (offset : Nat)
    (dst : Octets) (requested : Nat) : (VmBlockIoStatus × Nat) × Octets × Session :=
  match transferGuard s f offset requested with
  | (some status, s) => ((status, 0), dst, s)
  | (none, s) =>
    let s := s.count fun stats =>
      { stats with
        readCallbacks := counterAdd stats.readCallbacks 1
        requestedBytes := counterAdd stats.requestedBytes requested }
    match s.data with
    | some data =>
      if s.cacheEnabled ∧ requested ≤ lineBytes then
        readCacheRead s data file refill bypass offset dst requested
      else readBypass s file bypass offset dst requested
    | none => readBypass s file bypass offset dst requested

/-- `file_write_at`, which changes the file. -/
def fileWriteAt (s : Session) (file : Octets) (f : Fstat) (h : HostWrite) (offset : Nat)
    (src : Octets) (requested : Nat) : (VmBlockIoStatus × Nat) × Octets × Session :=
  match transferGuard s f offset requested with
  | (some status, s) => ((status, 0), file, s)
  | (none, s) =>
    let s := readCacheInvalidateRange s offset requested
    match h with
    | .moved n =>
      let actual := min (n + 1) requested
      ((.ok, actual), memcpy file offset src actual, s)
    | .nothing => ((.error, 0), file, s.rememberError eio)
    | .interrupted => ((.retry, 0), file, s)
    | .failed error written =>
      ((.error, 0), memcpy file offset src (min written requested), s.rememberError error)

/-- `file_flush_callback`. -/
def fileFlushCallback (s : Session) (f : Fstat) (h : HostSync) : VmBlockIoStatus × Session :=
  if ¬s.active ∨ ¬s.descriptorOpen ∨ s.stickyError then (.error, s)
  else
    match sessionRevalidate s f with
    | (.ok, s) =>
      match h with
      | .done => (.ok, s)
      | .interrupted => (.retry, s)
      | .failed error => (.error, s.rememberError error)
    | (.retry, s) => (.retry, s)
    | (_, s) => (.error, s)

/-- `initialize_session`: the cache is empty. -/
def initializeSession (expectedSize : Nat) (identity : Nat × Nat) (enabled allocated : Bool)
    (data : Octets) : Session where
  expectedSize
  descriptorOpen := true
  lastSystemError := 0
  active := true
  stickyError := false
  initialIdentity := identity
  data := if enabled ∧ allocated then some data else none
  entries _ := ⟨0, 0, 0, false⟩
  clock := 0
  cacheEnabled := enabled
  stats := ⟨enabled, enabled ∧ allocated, 0, 0, 0, 0, 0, 0, 0, 0, 0⟩

/-! ### Callbacks in turn -/

/-- A callback, and what the host answers in it. -/
inductive Callback
  | read (f : Fstat) (refill bypass : HostRead) (offset : Nat) (dst : Octets) (requested : Nat)
  | write (f : Fstat) (h : HostWrite) (offset : Nat) (src : Octets) (requested : Nat)
  | flush (f : Fstat) (h : HostSync)

/-- A session and the octets of its file. -/
structure Backed where
  session : Session
  file : Octets

/-- A callback taken. -/
def Callback.take : Callback → Backed → Backed
  | .read f refill bypass offset dst requested, b =>
    { b with session := (fileReadAt b.session b.file f refill bypass offset dst requested).2.2 }
  | .write f h offset src requested, b =>
    let r := fileWriteAt b.session b.file f h offset src requested
    ⟨r.2.2, r.2.1⟩
  | .flush f h, b => { b with session := (fileFlushCallback b.session f h).2 }

/-! ### What the cache holds -/

variable {s : Session} {file data : Octets} {index offset requested : Nat} {entry : CacheEntry}

/-- What an entry holds, where it is valid, is at its place in the file. -/
def Mirrors (data file : Octets) (index : Nat) (entry : CacheEntry) : Prop :=
  entry.valid = true → entry.validBytes ≤ lineBytes ∧
    ∀ i < entry.validBytes, data (index * lineBytes + i) = file (entry.offset + i)

/-- What is valid in the cache is in the file. -/
def Coherent (s : Session) (file : Octets) : Prop :=
  ∀ data, s.data = some data → ∀ index < entryCount, Mirrors data file index (s.entries index)

theorem mirrors_of_not_valid (h : entry.valid = false) : Mirrors data file index entry := by
  intro hvalid
  rw [h] at hvalid
  cases hvalid

theorem Coherent.congr {s' : Session} (h : Coherent s file) (hdata : s'.data = s.data)
    (hentries : s'.entries = s.entries) : Coherent s' file := by
  intro data hd
  rw [hentries]
  exact h data (hdata.symm.trans hd)

theorem Coherent.count (h : Coherent s file) (f : CacheStats → CacheStats) :
    Coherent (s.count f) file :=
  h.congr rfl rfl

theorem Coherent.rememberError (h : Coherent s file) (error : Nat) :
    Coherent (s.rememberError error) file :=
  h.congr rfl rfl

theorem Coherent.setEntry (h : Coherent s file)
    (hentry : ∀ data, s.data = some data → Mirrors data file index entry) :
    Coherent (s.setEntry index entry) file := by
  intro data hdata j hj
  change Mirrors data file j (if j = index then entry else s.entries j)
  split_ifs with hji
  · rw [hji]
    exact hentry data hdata
  · exact h data hdata j hj

theorem Coherent.giveUp (h : Coherent s file) (index : Nat) :
    Coherent (s.setEntry index { s.entries index with valid := false }) file :=
  h.setEntry fun _ _ => mirrors_of_not_valid rfl

theorem Coherent.touch (h : Coherent s file) (hindex : index < entryCount) :
    Coherent (readCacheTouch s index) file := by
  refine Coherent.setEntry (s := { s with clock := _ }) (h.congr rfl rfl) fun data hdata => ?_
  exact h data hdata index hindex

theorem Coherent.revalidate (h : Coherent s file) (f : Fstat) :
    Coherent (sessionRevalidate s f).2 file := by
  cases f with
  | failed error => exact h.rememberError error
  | interrupted => exact h
  | status regular size links identity =>
    rw [sessionRevalidate]
    split_ifs
    · exact h.rememberError eio
    · exact h.rememberError eio
    · exact h

theorem Coherent.guarded (h : Coherent s file) (f : Fstat) (offset requested : Nat) :
    Coherent (transferGuard s f offset requested).2 file := by
  have hcheck := h.revalidate f
  rw [transferGuard]
  split_ifs
  · exact h
  · exact h
  · exact h
  · exact h
  · split <;> rename_i hr <;> rw [hr] at hcheck <;> exact hcheck

theorem pos_of_guard {f : Fstat} {s' : Session}
    (h : transferGuard s f offset requested = (none, s')) : 0 < requested := by
  rw [transferGuard] at h
  split_ifs at h with h₁ h₂ <;> first | exact Nat.pos_of_ne_zero h₂ | cases h

/-! ### Writing -/

/-- An entry that does not meet what is written holds what it held. -/
theorem Mirrors.written (h : Mirrors data file index entry) (src : Octets) {n : Nat}
    (hn : n ≤ requested) (hmeets : entry.meets offset requested = false) :
    Mirrors data (memcpy file offset src n) index entry := by
  intro hvalid
  obtain ⟨hlen, hsame⟩ := h hvalid
  refine ⟨hlen, fun i hi => ?_⟩
  rw [hsame i hi]
  rw [CacheEntry.meets, decide_eq_false_iff_not] at hmeets
  rcases Nat.lt_or_ge (entry.offset + i) offset with hlt | hge
  · rw [memcpy_of_lt hlt]
  · rw [memcpy_of_ge]
    by_contra hin
    exact hmeets ⟨hvalid, by omega, by omega⟩

theorem data_giveUpIfMet (offset requested : Nat) (s : Session) (index : Nat) :
    (giveUpIfMet offset requested s index).data = s.data := by
  rw [giveUpIfMet]
  split_ifs <;> rfl

theorem Coherent.giveUpIfMet (h : Coherent s file) (offset requested index : Nat) :
    Coherent (giveUpIfMet offset requested s index) file := by
  rw [Media.giveUpIfMet]
  split_ifs
  · exact (h.giveUp index).count _
  · exact h

/-- Behind it, the entry does not meet what is written, and another does only if it did. -/
theorem meets_giveUpIfMet (offset requested : Nat) (s : Session) (index j : Nat)
    (h : ((giveUpIfMet offset requested s index).entries j).meets offset requested = true) :
    j ≠ index ∧ (s.entries j).meets offset requested = true := by
  rw [giveUpIfMet] at h
  split_ifs at h with hmeets
  · change (if j = index then { s.entries index with valid := false }
      else s.entries j).meets offset requested = true at h
    split_ifs at h with hji
    · rw [CacheEntry.meets, decide_eq_true_eq] at h
      exact absurd h.1 Bool.false_ne_true
    · exact ⟨hji, h⟩
  · refine ⟨?_, h⟩
    rintro rfl
    exact hmeets h

theorem foldl_giveUpIfMet (h : Coherent s file) (offset requested : Nat) (indices : List Nat) :
    let s' := indices.foldl (giveUpIfMet offset requested) s
    s'.data = s.data ∧ Coherent s' file ∧
      ∀ j, (s'.entries j).meets offset requested = true →
        j ∉ indices ∧ (s.entries j).meets offset requested = true := by
  induction indices generalizing s with
  | nil => exact ⟨rfl, h, fun j hj => ⟨List.not_mem_nil, hj⟩⟩
  | cons index indices ih =>
    obtain ⟨hdata, hcoherent, hmeets⟩ := ih (h.giveUpIfMet offset requested index)
    refine ⟨hdata.trans (data_giveUpIfMet ..), hcoherent, fun j hj => ?_⟩
    obtain ⟨hnot, hmet⟩ := hmeets j hj
    obtain ⟨hne, hmet⟩ := meets_giveUpIfMet _ _ _ _ _ hmet
    exact ⟨List.not_mem_cons_of_ne_of_not_mem hne hnot, hmet⟩

/-- The file may change where the cache has been given up. -/
theorem Coherent.invalidated (h : Coherent s file) (hpos : 0 < requested) (src : Octets) {n : Nat}
    (hn : n ≤ requested) :
    Coherent (readCacheInvalidateRange s offset requested) (memcpy file offset src n) := by
  rw [readCacheInvalidateRange]
  split_ifs with hskip
  · intro data hdata
    have hnone : s.data.isNone = true := hskip.resolve_right hpos.ne'
    rw [hdata] at hnone
    cases hnone
  · obtain ⟨-, hcoherent, hmeets⟩ :=
      foldl_giveUpIfMet h offset requested (List.range entryCount)
    intro data hdata j hj
    refine (hcoherent data hdata j hj).written src hn (Bool.eq_false_iff.mpr fun hmet => ?_)
    exact (hmeets j hmet).1 (List.mem_range.mpr hj)

/-! ### Reading -/

/-- What a read has returned is in the file: something of what was requested, if it is fine. -/
structure Delivered (file : Octets) (offset requested : Nat)
    (r : (VmBlockIoStatus × Nat) × Octets × Session) : Prop where
  some_of_ok : r.1.1 = .ok → 1 ≤ r.1.2
  le : r.1.2 ≤ requested
  octets : ∀ i < r.1.2, r.2.1 i = file (offset + i)

theorem delivered_nothing (io : VmBlockIoStatus) (hio : io ≠ .ok) (dst : Octets) (s : Session) :
    Delivered file offset requested ((io, 0), dst, s) :=
  ⟨fun h => absurd h hio, Nat.zero_le _, fun _ hi => absurd hi (Nat.not_lt_zero _)⟩

theorem hostReadOnce_delivered (s : Session) (file : Octets) (h : HostRead) (offset : Nat)
    (dst : Octets) (hpos : 0 < requested) :
    Delivered file offset requested (hostReadOnce s file h offset dst 0 requested) := by
  cases h with
  | moved n =>
    refine ⟨fun _ => ?_, Nat.min_le_right .., fun i hi => ?_⟩
    · exact Nat.le_min.mpr ⟨by omega, hpos⟩
    · have hcopy : memcpy dst 0 (fun i => file (offset + i)) _ (0 + i) = file (offset + i) :=
        memcpy_inside hi
      rwa [Nat.zero_add] at hcopy
  | ended => exact delivered_nothing .error (by decide) _ _
  | interrupted => exact delivered_nothing .retry (by decide) _ _
  | failed error => exact delivered_nothing .error (by decide) _ _

theorem hostReadOnce_session (s : Session) (file : Octets) (h : HostRead) (offset : Nat)
    (dst : Octets) (place requested : Nat) :
    (hostReadOnce s file h offset dst place requested).2.2.data = s.data ∧
      (hostReadOnce s file h offset dst place requested).2.2.entries = s.entries := by
  cases h <;> exact ⟨rfl, rfl⟩

theorem Coherent.bypass (h : Coherent s file) (host : HostRead) (offset : Nat) (dst : Octets)
    (requested : Nat) : Coherent (readBypass s file host offset dst requested).2.2 file := by
  obtain ⟨hdata, hentries⟩ := hostReadOnce_session
    (s.count fun stats => { stats with cacheBypasses := counterAdd stats.cacheBypasses 1 })
    file host offset dst 0 requested
  exact h.congr hdata hentries

theorem readBypass_delivered (s : Session) (file : Octets) (h : HostRead) (offset : Nat)
    (dst : Octets) (hpos : 0 < requested) :
    Delivered file offset requested (readBypass s file h offset dst requested) :=
  hostReadOnce_delivered _ file h offset dst hpos

/-- The loop over the ways ends at one of them, or at the victim that it began with. -/
theorem scanWays_mem (lineOffset within : Nat) (ways : List Nat) (victim : Nat) (found : Bool) :
    (∀ index, scanWays s lineOffset within ways victim found = .inl index →
      index ∈ ways ∧ (s.entries index).valid = true ∧ (s.entries index).offset = lineOffset ∧
        within < (s.entries index).validBytes) ∧
    ∀ index, scanWays s lineOffset within ways victim found = .inr index →
      index = victim ∨ index ∈ ways := by
  induction ways generalizing victim found with
  | nil =>
    refine ⟨fun index h => (nomatch h), fun index h => ?_⟩
    cases h
    exact .inl rfl
  | cons way ways ih =>
    rw [scanWays]
    split_ifs with hhit hfree hold
    · refine ⟨fun index h => ?_, fun index h => (nomatch h)⟩
      cases h
      exact ⟨List.mem_cons_self, hhit⟩
    · refine ⟨fun index h => ?_, fun index h => ?_⟩
      · exact ((ih way true).1 index h).imp_left (List.mem_cons_of_mem _)
      · rcases (ih way true).2 index h with rfl | hmem
        · exact .inr List.mem_cons_self
        · exact .inr (List.mem_cons_of_mem _ hmem)
    · refine ⟨fun index h => ?_, fun index h => ?_⟩
      · exact ((ih way found).1 index h).imp_left (List.mem_cons_of_mem _)
      · rcases (ih way found).2 index h with rfl | hmem
        · exact .inr List.mem_cons_self
        · exact .inr (List.mem_cons_of_mem _ hmem)
    · refine ⟨fun index h => ?_, fun index h => ?_⟩
      · exact ((ih victim found).1 index h).imp_left (List.mem_cons_of_mem _)
      · exact ((ih victim found).2 index h).imp_right (List.mem_cons_of_mem _)

/-- A line that has been refilled, in whatever entry. -/
theorem Coherent.refilled (h : Coherent s file) (hdata : s.data = some data) (s' : Session)
    (entry : CacheEntry) {victim lineOffset filled : Nat} (hfilled : filled ≤ lineBytes)
    (hdata' : s'.data =
      some (memcpy data (victim * lineBytes) (fun i => file (lineOffset + i)) filled))
    (hentries' : s'.entries = s.entries) (hentry : entry.offset = lineOffset)
    (hbytes : entry.validBytes = filled) : Coherent (s'.setEntry victim entry) file := by
  intro data' hd j hj
  obtain rfl := Option.some.inj (hdata'.symm.trans hd)
  change Mirrors _ file j (if j = victim then entry else s'.entries j)
  split_ifs with hvictim
  · subst hvictim
    intro _
    refine ⟨hbytes.trans_le hfilled, fun i hi => ?_⟩
    rw [memcpy_inside (hi.trans_eq hbytes), hentry]
  · intro hvalid
    rw [hentries'] at hvalid ⊢
    obtain ⟨hlen, hsame⟩ := h data hdata j hj hvalid
    refine ⟨hlen, fun i hi => ?_⟩
    rw [← hsame i hi]
    -- The lines of two entries are apart.
    rcases Nat.lt_or_gt_of_ne hvictim with hlt | hgt
    · have hbefore : (j + 1) * lineBytes ≤ victim * lineBytes := Nat.mul_le_mul_right _ hlt
      rw [Nat.add_mul, Nat.one_mul] at hbefore
      exact memcpy_of_lt (by omega)
    · have hbehind : (victim + 1) * lineBytes ≤ j * lineBytes := Nat.mul_le_mul_right _ hgt
      rw [Nat.add_mul, Nat.one_mul] at hbehind
      exact memcpy_of_ge (by omega)

/-- What has been taken out of a line. -/
theorem delivered_line {lineOffset within available place : Nat} (dst : Octets) (s : Session)
    (hwithin : lineOffset + within = offset) (havailable : within < available)
    (hpos : 0 < requested)
    (hline : ∀ i < available, data (place + i) = file (lineOffset + i)) :
    Delivered file offset requested ((.ok, min requested (available - within)),
      memcpy dst 0 (fun i => data (place + within + i)) (min requested (available - within)),
      s) := by
  refine ⟨fun _ => Nat.le_min.mpr ⟨hpos, by omega⟩, Nat.min_le_left .., fun i hi => ?_⟩
  have hcopy : memcpy dst 0 (fun i => data (place + within + i)) _ (0 + i) =
      data (place + within + i) := memcpy_inside hi
  rw [Nat.zero_add] at hcopy
  have hin : within + i < available := by
    have hle : i < available - within := hi.trans_le (Nat.min_le_right ..)
    omega
  change memcpy dst 0 (fun i => data (place + within + i)) _ i = _
  rw [hcopy, Nat.add_assoc, hline _ hin, ← hwithin, Nat.add_assoc]

/-- Behind the refill of a line. -/
theorem readCacheFilled_spec (h : Coherent s file) (hdata : s.data = some data)
    (hpos : 0 < requested) (bypass : HostRead) (dst : Octets) {s' : Session} {data' : Octets}
    {lineOffset victim filled : Nat} (hwithin : lineOffset + (offset - lineOffset) = offset)
    (hvictim : victim < entryCount) (hfilled : filled ≤ lineBytes)
    (hentries : s'.entries = s.entries)
    (hdata' : data' = memcpy data (victim * lineBytes) (fun i => file (lineOffset + i)) filled) :
    let r := readCacheFilled s' data' file bypass lineOffset victim filled offset dst requested
    Coherent r.2.2 file ∧ Delivered file offset requested r := by
  have hfresh : Coherent (readCacheTouch ({ s' with data := some data' }.setEntry victim
      { s'.entries victim with
        offset := lineOffset, validBytes := filled, valid := decide (filled ≠ 0) }) victim) file :=
    (h.refilled hdata { s' with data := some data' } { s'.entries victim with
      offset := lineOffset, validBytes := filled, valid := decide (filled ≠ 0) } hfilled
      (congrArg some hdata') hentries rfl rfl).touch hvictim
  dsimp only
  rw [readCacheFilled]
  split_ifs with hshort
  · exact ⟨(hfresh.giveUp victim).bypass bypass offset dst requested,
      readBypass_delivered _ file bypass offset dst hpos⟩
  · refine ⟨hfresh, delivered_line dst _ hwithin (not_le.mp hshort) hpos fun i hi => ?_⟩
    rw [hdata', memcpy_inside hi]

/-- A read through the cache. -/
theorem readCacheRead_spec (h : Coherent s file) (hdata : s.data = some data)
    (hpos : 0 < requested) (refill bypass : HostRead) (offset : Nat) (dst : Octets) :
    let r := readCacheRead s data file refill bypass offset dst requested
    Coherent r.2.2 file ∧ Delivered file offset requested r := by
  have hwithin : offset / lineBytes * lineBytes + (offset - offset / lineBytes * lineBytes) =
      offset := Nat.add_sub_cancel' (Nat.div_mul_le_self ..)
  dsimp only
  rw [readCacheRead]
  dsimp only
  generalize offset / lineBytes * lineBytes = lineOffset at hwithin ⊢
  have hset : lineOffset / lineBytes % setCount < setCount := Nat.mod_lt _ (by decide)
  have hsets : setCount * cacheWays = entryCount := by decide
  have hfirst : lineOffset / lineBytes % setCount * cacheWays + 3 < entryCount := by
    rw [← hsets]
    change _ * 4 + 3 < setCount * 4
    omega
  generalize lineOffset / lineBytes % setCount * cacheWays = first at hfirst ⊢
  have hways : ∀ index ∈ [first, first + 1, first + 2, first + 3], index < entryCount := by
    simp only [List.mem_cons, List.not_mem_nil, or_false, forall_eq_or_imp, forall_eq]
    omega
  split_ifs with hlong
  · exact ⟨h.bypass bypass offset dst requested, readBypass_delivered s file bypass offset dst hpos⟩
  · obtain ⟨hfound, hmissed⟩ :=
      scanWays_mem (s := s) lineOffset (offset - lineOffset)
        [first, first + 1, first + 2, first + 3] first false
    match hscan : scanWays s lineOffset (offset - lineOffset)
        [first, first + 1, first + 2, first + 3] first false with
    | .inl index =>
      obtain ⟨hmem, hvalid, hoffset, hinside⟩ := hfound index hscan
      obtain ⟨_, hsame⟩ := h data hdata index (hways index hmem) hvalid
      refine ⟨(h.touch (hways index hmem)).count _, ?_⟩
      exact delivered_line dst _ hwithin hinside hpos fun i hi => hoffset ▸ hsame i hi
    | .inr victim =>
      have hvictim : victim < entryCount := by
        rcases hmissed victim hscan with rfl | hmem
        · exact hways _ List.mem_cons_self
        · exact hways _ hmem
      -- Nothing has come into the line when the host read fails.
      have hkept : ∀ s' : Session, s'.entries = s.entries →
          Coherent { s' with data := some data } file := fun s' hentries =>
        h.congr hdata.symm hentries
      cases refill with
      | ended => exact ⟨hkept _ rfl, delivered_nothing .error (by decide) _ _⟩
      | interrupted => exact ⟨hkept _ rfl, delivered_nothing .retry (by decide) _ _⟩
      | failed error => exact ⟨hkept _ rfl, delivered_nothing .error (by decide) _ _⟩
      | moved n =>
        have hlen : min (n + 1) (min (s.expectedSize - lineOffset) lineBytes) ≤ lineBytes :=
          (Nat.min_le_right ..).trans (Nat.min_le_right ..)
        exact readCacheFilled_spec h hdata hpos bypass dst hwithin hvictim hlen rfl rfl

/-! ### Callbacks in any order -/

/-- Where the checks do not let a transfer begin, they report that it is fine only if nothing has
been requested. -/
theorem eq_zero_of_guard {f : Fstat} {s' : Session}
    (h : transferGuard s f offset requested = (some .ok, s')) : requested = 0 := by
  rw [transferGuard] at h
  by_contra hne
  rw [if_neg hne] at h
  split_ifs at h
  · cases h
  · cases h
  · split at h <;> cases h

theorem fileReadAt_spec (h : Coherent s file) (f : Fstat) (refill bypass : HostRead) (offset : Nat)
    (dst : Octets) (requested : Nat) :
    let r := fileReadAt s file f refill bypass offset dst requested
    Coherent r.2.2 file ∧ (∀ i < r.1.2, r.2.1 i = file (offset + i)) ∧
      (0 < requested → Delivered file offset requested r) := by
  have hguarded := h.guarded f offset requested
  dsimp only
  rw [fileReadAt]
  match hguard : transferGuard s f offset requested with
  | (some status, s') =>
    rw [hguard] at hguarded
    refine ⟨hguarded, fun i hi => absurd hi (Nat.not_lt_zero _), fun hpos => ?_⟩
    refine delivered_nothing status ?_ dst s'
    rintro rfl
    exact hpos.ne' (eq_zero_of_guard hguard)
  | (none, s') =>
    rw [hguard] at hguarded
    have hpos := pos_of_guard hguard
    dsimp only
    have hcounted : Coherent (s'.count fun stats =>
        { stats with
          readCallbacks := counterAdd stats.readCallbacks 1
          requestedBytes := counterAdd stats.requestedBytes requested }) file :=
      hguarded.count _
    generalize (s'.count fun stats =>
        { stats with
          readCallbacks := counterAdd stats.readCallbacks 1
          requestedBytes := counterAdd stats.requestedBytes requested }) = t at hcounted ⊢
    have hpast := readBypass_delivered t file bypass offset dst hpos
    match hdata : t.data with
    | some data =>
      dsimp only
      split_ifs
      · obtain ⟨hcoherent, hdelivered⟩ :=
          readCacheRead_spec hcounted hdata hpos refill bypass offset dst
        exact ⟨hcoherent, hdelivered.octets, fun _ => hdelivered⟩
      · exact ⟨hcounted.bypass bypass offset dst requested, hpast.octets, fun _ => hpast⟩
    | none => exact ⟨hcounted.bypass bypass offset dst requested, hpast.octets, fun _ => hpast⟩

theorem fileWriteAt_coherent (h : Coherent s file) (f : Fstat) (host : HostWrite) (offset : Nat)
    (src : Octets) (requested : Nat) :
    let r := fileWriteAt s file f host offset src requested
    Coherent r.2.2 r.2.1 := by
  have hguarded := h.guarded f offset requested
  dsimp only
  rw [fileWriteAt]
  match hguard : transferGuard s f offset requested with
  | (some status, s') =>
    rw [hguard] at hguarded
    exact hguarded
  | (none, s') =>
    rw [hguard] at hguarded
    have hwritten {n : Nat} (hn : n ≤ requested) :
        Coherent (readCacheInvalidateRange s' offset requested) (memcpy file offset src n) :=
      hguarded.invalidated (pos_of_guard hguard) src hn
    have hkept := hwritten (Nat.zero_le requested)
    rw [memcpy_zero] at hkept
    cases host with
    | moved n => exact hwritten (Nat.min_le_right ..)
    | nothing => exact hkept.rememberError eio
    | interrupted => exact hkept
    | failed error written => exact (hwritten (Nat.min_le_right ..)).rememberError error

theorem fileFlushCallback_coherent (h : Coherent s file) (f : Fstat) (host : HostSync) :
    Coherent (fileFlushCallback s f host).2 file := by
  have hcheck := h.revalidate f
  rw [fileFlushCallback]
  split_ifs
  · exact h
  · match hf : sessionRevalidate s f with
    | (.ok, s') =>
      rw [hf] at hcheck
      cases host with
      | done => exact hcheck
      | interrupted => exact hcheck
      | failed error => exact hcheck.rememberError error
    | (.retry, s') | (.error, s') | (.other, s') =>
      rw [hf] at hcheck
      exact hcheck

/-- A callback leaves the cache coherent. -/
theorem Callback.coherent (c : Callback) (b : Backed) (h : Coherent b.session b.file) :
    Coherent (c.take b).session (c.take b).file := by
  cases c with
  | read f refill bypass offset dst requested =>
    exact (fileReadAt_spec h f refill bypass offset dst requested).1
  | write f host offset src requested => exact fileWriteAt_coherent h f host offset src requested
  | flush f host => exact fileFlushCallback_coherent h f host

theorem coherent_initializeSession (expectedSize : Nat) (identity : Nat × Nat)
    (enabled allocated : Bool) (data file : Octets) :
    Coherent (initializeSession expectedSize identity enabled allocated data) file :=
  fun _ _ _ _ => mirrors_of_not_valid rfl

/-- Whatever callbacks a session has taken in whatever order, with a cache or without one, and
whatever the host has answered in them, short reads and writes and failures included, no line of its
cache differs from the file. And a read at any place, of any length, answered from the cache or past
it, returns the octets that the file then holds; when it is fine it returns at least one of what was
requested and no more than that. -/
theorem cache_transparent (expectedSize : Nat) (identity : Nat × Nat) (enabled allocated : Bool)
    (data file : Octets) (callbacks : List Callback) :
    let b := follow Callback.take
      ⟨initializeSession expectedSize identity enabled allocated data, file⟩ callbacks
    Coherent b.session b.file ∧
      ∀ f refill bypass offset dst requested,
        let r := fileReadAt b.session b.file f refill bypass offset dst requested
        (∀ i < r.1.2, r.2.1 i = b.file (offset + i)) ∧
          (0 < requested → r.1.1 = .ok → 1 ≤ r.1.2 ∧ r.1.2 ≤ requested) := by
  intro b
  have hb : Coherent b.session b.file := by
    refine Run.keeps (I := fun b : Backed => Coherent b.session b.file) (fun b c _ h => ?_)
      (run_follow _ callbacks) ?_
    · exact c.coherent b h
    · exact coherent_initializeSession expectedSize identity enabled allocated data file
  refine ⟨hb, fun f refill bypass offset dst requested => ?_⟩
  obtain ⟨-, hoctets, hdelivered⟩ := fileReadAt_spec hb f refill bypass offset dst requested
  exact ⟨hoctets, fun hpos hok => ⟨(hdelivered hpos).some_of_ok hok, (hdelivered hpos).le⟩⟩

end S5LBox.Media
