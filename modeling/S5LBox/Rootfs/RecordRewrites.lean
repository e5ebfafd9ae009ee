import S5LBox.Lib.Borders
import S5LBox.Rootfs.Steady

/-!
# Rewriting a record in place

Three steps of `rootfs_work_create` find a stock record in the image by its content and write one of
the same length over it: the table of file systems, and two property lists. All three ask the same
scanner whether the record occurs exactly once; it reads the image buffer by buffer and takes its
automaton from one buffer to the next.

## Main definitions

* `patternScanUnique`: the scanner.
* `fstabRewrite`, `caPlistRewrite`, `pppPlistRewrite`: the rewrites.

## Main results

* `patternScanUnique_run`: what the scanner reports.
* `recordRewrite_rewrites`: what a rewrite changes.
* `record_rewrites`: the scanner and the three rewrites.
-/

namespace S5LBox.Rootfs

open Attempts Borders Reading

/-! ### The records -/

/-- The octets of a text. -/
def octets (text : String) : List Byte := text.toByteArray.data.toList.map UInt8.toBitVec

/-- `FSTAB_STOCK`. -/
def fstabStock : List Byte :=
  octets "/dev/disk0s1 / hfs ro 0 1\n/dev/disk0s2 /private/var hfs rw,nosuid,nodev 0 2\n"

/-- The octets of lines, each with its newline. -/
def octetLines (ls : List String) : List Byte := (ls.map fun l => octets (l ++ "\n")).flatten

/-- `CA_PLIST_STOCK`. -/
def caPlistStock : List Byte :=
  octetLines
    ["<?xml version=\"1.0\" encoding=\"UTF-8\"?>",
    "<!DOCTYPE plist PUBLIC \"-//Apple//DTD PLIST 1.0//EN\"" ++
      " \"http://www.apple.com/DTDs/PropertyList-1.0.dtd\">",
    "<plist version=\"1.0\">", "<dict>", "\t<key>KeepAlive</key>", "\t<true/>",
    "\t<key>Label</key>", "\t<string>com.apple.SpringBoard</string>", "\t<key>MachServices</key>",
    "\t<dict>", "\t\t<key>com.apple.springboard.watchdogserver</key>", "\t\t<true/>",
    "\t\t<key>com.apple.SBUserNotification</key>", "\t\t<true/>",
    "\t\t<key>PurpleSystemEventPort</key>", "\t\t<dict>", "\t\t\t<key>ResetAtClose</key>",
    "\t\t\t<true/>", "\t\t</dict>", "\t\t<key>com.apple.CARenderServer</key>", "\t\t<dict>",
    "\t\t\t<key>ResetAtClose</key>", "\t\t\t<true/>", "\t\t</dict>",
    "\t\t<key>com.apple.iohideventsystem</key>", "\t\t<dict>", "\t\t\t<key>ResetAtClose</key>",
    "\t\t\t<true/>", "\t\t</dict>", "\t\t<key>com.apple.springboard</key>", "\t\t<dict>",
    "\t\t\t<key>ResetAtClose</key>", "\t\t\t<true/>", "\t\t</dict>",
    "\t\t<key>com.apple.springboard.UIKit.migserver</key>", "\t\t<dict>",
    "\t\t\t<key>ResetAtClose</key>", "\t\t\t<true/>", "\t\t</dict>",
    "\t\t<key>com.apple.springboard.services</key>", "\t\t<dict>",
    "\t\t\t<key>ResetAtClose</key>", "\t\t\t<true/>", "\t\t</dict>",
    "\t\t<key>com.apple.springboard.remotenotifications</key>", "\t\t<dict>",
    "\t\t\t<key>ResetAtClose</key>", "\t\t\t<true/>", "\t\t</dict>",
    "\t\t<key>com.apple.smsserver</key>", "\t\t<dict>", "\t\t\t<key>ResetAtClose</key>",
    "\t\t\t<true/>", "\t\t</dict>", "\t</dict>", "\t<key>ProgramArguments</key>", "\t<array>",
    "\t\t<string>/System/Library/CoreServices/SpringBoard.app/SpringBoard</string>", "\t</array>",
    "\t<key>UserName</key>", "\t<string>mobile</string>", "\t<key>ThrottleInterval</key>",
    "\t<integer>5</integer>", "\t<key>EmbeddedPrivilegeDispensation</key>", "\t<true/>",
    "</dict>", "</plist>"]

/-- `CA_PLIST_SOFTWARE_RENDER`. -/
def caPlistSoftwareRender : List Byte :=
  octetLines
    ["<?xml version=\"1.0\" encoding=\"UTF-8\"?>",
    "\t<!DOCTYPE plist PUBLIC \"-//Apple//DTD PLIST 1.0//EN\"" ++
      " \"http://www.apple.com/DTDs/PropertyList-1.0.dtd\">",
    "\t<plist version=\"1.0\">", "\t<dict>", "\t<key>EnvironmentVariables</key>", "\t<dict>",
    "\t<key>CA_ENABLE_MBX2D</key>", "\t<string>0</string>", "\t</dict>", "\t<key>KeepAlive</key>",
    "\t<true/>", "\t<key>Label</key>", "\t<string>com.apple.SpringBoard</string>",
    "\t<key>MachServices</key>", "\t<dict>", "\t<key>com.apple.springboard.watchdogserver</key>",
    "\t<true/>", "\t<key>com.apple.SBUserNotification</key>", "\t<true/>",
    "\t<key>PurpleSystemEventPort</key>", "\t<dict>", "\t<key>ResetAtClose</key>", "\t<true/>",
    "\t</dict>", "\t<key>com.apple.CARenderServer</key>", "\t<dict>", "\t<key>ResetAtClose</key>",
    "\t<true/>", "\t</dict>", "\t<key>com.apple.iohideventsystem</key>", "<dict>",
    "<key>ResetAtClose</key>", "<true/>", "</dict>", "<key>com.apple.springboard</key>", "<dict>",
    "<key>ResetAtClose</key>", "<true/>", "</dict>",
    "<key>com.apple.springboard.UIKit.migserver</key>", "<dict>", "<key>ResetAtClose</key>",
    "<true/>", "</dict>", "<key>com.apple.springboard.services</key>", "<dict>",
    "<key>ResetAtClose</key>", "<true/>", "</dict>",
    "<key>com.apple.springboard.remotenotifications</key>", "<dict>", "<key>ResetAtClose</key>",
    "<true/>", "</dict>", "<key>com.apple.smsserver</key>", "<dict>", "<key>ResetAtClose</key>",
    "<true/>", "</dict>", "</dict>", "<key>ProgramArguments</key>", "<array>",
    "<string>/System/Library/CoreServices/SpringBoard.app/SpringBoard</string>", "</array>",
    "<key>UserName</key>", "<string>mobile</string>", "<key>ThrottleInterval</key>",
    "<integer>5</integer>", "<key>EmbeddedPrivilegeDispensation</key>", "<true/>", "</dict>",
    "</plist>"]

/-- `PPP_PLIST_STOCK`. -/
def pppPlistStock : List Byte :=
  octetLines
    ["<?xml version=\"1.0\" encoding=\"UTF-8\"?>",
    "<!DOCTYPE plist PUBLIC \"-//Apple Inc.//DTD PLIST 1.0//EN\"" ++
      " \"http://www.apple.com/DTDs/PropertyList-1.0.dtd\">",
    "<plist version=\"1.0\">", "<dict>", "        <key>Label</key>",
    "        <string>com.apple.chud.pilotfish</string>", "        <key>MachServices</key>",
    "        <dict>", "                <key>com.apple.chud.pilotfish</key>", "\t\t\t\t<true/>",
    "        </dict>", "        <key>ProgramArguments</key>", "        <array>",
    "                <string>/Developer/usr/libexec/pilotfish</string>", "        </array>",
    "</dict>", "</plist>"]

/-- `PPP_PLIST_JOB`. -/
def pppPlistJob : List Byte :=
  octetLines
    ["<?xml version=\"1.0\" encoding=\"UTF-8\"?>",
    "<!DOCTYPE plist PUBLIC \"-//Apple Inc.//DTD PLIST 1.0//EN\"" ++
      " \"http://www.apple.com/DTDs/PropertyList-1.0.dtd\">",
    "<plist version=\"1.0\">", "<dict>", "\t<key>Label</key>",
    "<string>com.apple.chud.pilotfish</string>", "\t<key>RunAtLoad</key>", "<true/>",
    "\t<key>StandardOutPath</key>", "<string>/dev/console</string>",
    "\t<key>ProgramArguments</key>", "\t\t<array>", "<string>/usr/sbin/pppd</string>",
    "<string>/dev/tty.debug</string>", "<string>local</string>", "<string>nocrtscts</string>",
    "<string>nodetach</string>", "\t</array>", "</dict>", "</plist>"]

/-! ### The scanner -/

/-- What the scanner carries from one octet to the next. -/
structure Scan where
  matched : Nat
  hit : Nat
  hits : Nat

/-- The scanner before the first octet. -/
def Scan.start : Scan := ⟨0, 2 ^ 64 - 1, 0⟩

/-- One turn of the inner loop, for the octet at a position. -/
def scanByte (pattern : List Byte) (prefixes : List Nat) (s : Scan) (position : Nat)
    (value : Byte) : Scan :=
  let matched := advance pattern prefixes value s.matched
  if matched = pattern.length then
    { matched := prefixes.getD (matched - 1) 0
      hit := if s.hits = 0 then position + 1 - pattern.length else s.hit
      hits := s.hits + 1 }
  else { s with matched := matched }

/-- The inner loop. It ends at the second hit. -/
def scanChunk (pattern : List Byte) (prefixes : List Nat) (s : Scan) (position : Nat) :
    List Byte → Scan
  | [] => s
  | value :: rest =>
    let s' := scanByte pattern prefixes s position value
    if s'.hits > 1 then s' else scanChunk pattern prefixes s' (position + 1) rest

/-- The outer loop, from an offset on. -/
def scanFrom (fileSize : Nat) (pattern : List Byte) (prefixes : List Nat)
    (buffer : {n : Nat // 0 < n}) (offset : Nat) (s : Scan) : Reader Failure Byte Scan :=
  if _h : offset < fileSize then
    .read offset (min (fileSize - offset) buffer) fun got =>
      let s' := scanChunk pattern prefixes s offset got
      if s'.hits > 1 then .done s'
      else scanFrom fileSize pattern prefixes buffer (offset + min (fileSize - offset) buffer) s'
  else .done s
termination_by fileSize - offset
decreasing_by
  have _ := buffer.2
  omega

/-- `pattern_scan_unique`: the first hit, and how many there are. -/
def patternScanUnique (fileSize : Nat) (pattern : List Byte) (buffer : {n : Nat // 0 < n}) :
    Reader Failure Byte (Nat × Nat) := do
  let s ← scanFrom fileSize pattern (prefixTable pattern) buffer 0 .start
  pure (s.hit, s.hits)

/-! ### The rewrites -/

/-- `ROOTFS_WORK_FSTAB_NOT_UNIQUE`. -/
def fstabNotUnique : Status := .step 17

/-- `ROOTFS_WORK_FSTAB_LINE_INVALID`. -/
def fstabLineInvalid : Status := .step 18

/-- `ROOTFS_WORK_CA_PLIST_NOT_UNIQUE`. -/
def caPlistNotUnique : Status := .step 19

/-- `ROOTFS_WORK_CA_PLIST_INVALID`. -/
def caPlistInvalid : Status := .step 20

/-- `ROOTFS_WORK_PPP_PLIST_NOT_UNIQUE`. -/
def pppPlistNotUnique : Status := .step 21

/-- `ROOTFS_WORK_PPP_PLIST_INVALID`. -/
def pppPlistInvalid : Status := .step 22

/-- A patch that begins with a step that only reads. -/
def Patch.search {α β : Type} (stage : Stage) (k : α → Patch β) :
    Reader Failure Byte α → Patch β
  | .done a => k a
  | .fail why => .fail why
  | .read offset length next => .read offset length stage fun got => search stage k (next got)

/-- The part that the three rewrites share: the offset of the record that has been rewritten. -/
def recordRewrite (fileSize : Nat) (buffer : {n : Nat // 0 < n}) (stock replacement : List Byte)
    (notUnique : Status) (name : String) (scan write : Stage) : Patch Nat :=
  Patch.search scan
    (fun (hit, hits) =>
      if hits > 1 then .fail ⟨notUnique, scan, 0, s!"stock {name} occurs more than once"⟩
      else if hits ≠ 1 then
        .fail ⟨notUnique, scan, 0, s!"stock {name} occurs 0 times; exactly 1 is required"⟩
      else .write hit replacement write (.done hit))
    (patternScanUnique fileSize stock buffer)

/-- The loop of `fstab_rewrite` over the line: its length as far as `left` octets, and `none` when
it is more than one line. The octets of a C string end before a zero. -/
def lineSize : (left : Nat) → List Byte → Option Nat
  | 0, _ => some 0
  | _ + 1, [] => some 0
  | left + 1, value :: rest =>
    if value = 0 then some 0
    else if value = 0x0a ∨ value = 0x0d then none
    else (lineSize left rest).map (· + 1)

/-- The replacement of the record: the line, a newline, and the padding. -/
def fstabReplacement (size : Nat) (line : List Byte) : List Byte :=
  line ++ [0x0a] ++
    if size > line.length + 1 then List.replicate (size - line.length - 1 - 1) 0x23 ++ [0x0a]
    else []

/-- `fstab_rewrite`. -/
def fstabRewrite (fileSize : Nat) (buffer : {n : Nat // 0 < n}) (line : Option (List Byte)) :
    Patch Nat :=
  let size := fstabStock.length
  match line with
  | none => .fail ⟨fstabLineInvalid, .fstabWrite, 0, "fstab replacement line is NULL"⟩
  | some line =>
    match lineSize size line with
    | none =>
      .fail ⟨fstabLineInvalid, .fstabWrite, 0, "fstab replacement must be exactly one line"⟩
    | some length =>
      if length = 0 ∨ length = size ∨ length + 1 > size then
        .fail ⟨fstabLineInvalid, .fstabWrite, 0,
          s!"fstab replacement must contain 1..{size - 1} bytes"⟩
      else
        recordRewrite fileSize buffer fstabStock (fstabReplacement size (line.take length))
          fstabNotUnique "fstab record" .fstabScan .fstabWrite

/-- The rewrite of a property list. The lengths are compared where the write happens. -/
def plistRewrite (fileSize : Nat) (buffer : {n : Nat // 0 < n}) (stock replacement : List Byte)
    (invalid notUnique : Status) (what name : String) (scan write : Stage) : Patch Nat :=
  if replacement.length ≠ stock.length then
    .fail ⟨invalid, write, 0,
      s!"{what} is {replacement.length} bytes, not the stock {stock.length}"⟩
  else recordRewrite fileSize buffer stock replacement notUnique name scan write

/-- `ca_plist_rewrite`. -/
def caPlistRewrite (fileSize : Nat) (buffer : {n : Nat // 0 < n}) : Patch Nat :=
  plistRewrite fileSize buffer caPlistStock caPlistSoftwareRender caPlistInvalid caPlistNotUnique
    "software-render plist" "SpringBoard launchd plist" .caPlistScan .caPlistWrite

/-- `ppp_plist_rewrite`. -/
def pppPlistRewrite (fileSize : Nat) (buffer : {n : Nat // 0 < n}) : Patch Nat :=
  plistRewrite fileSize buffer pppPlistStock pppPlistJob pppPlistInvalid pppPlistNotUnique
    "pppd launchd job" "chud.pilotfish launchd plist" .pppPlistScan .pppPlistWrite

/-! ### Their lengths -/

theorem length_octets (text : String) : (octets text).length = text.utf8ByteSize := by
  rw [octets, List.length_map]
  rfl

theorem length_octetLines (ls : List String) :
    (octetLines ls).length = (ls.map fun l => l.utf8ByteSize + 1).sum := by
  rw [octetLines, List.length_flatten, List.map_map]
  refine congrArg List.sum (List.map_congr_left fun l _ => ?_)
  exact (length_octets _).trans (String.utf8ByteSize_append ..)

theorem length_fstabStock : fstabStock.length = 76 := by
  rw [fstabStock, length_octets]
  decide +kernel

theorem length_caPlist :
    caPlistStock.length = 1490 ∧ caPlistSoftwareRender.length = 1490 := by
  rw [caPlistStock, caPlistSoftwareRender, length_octetLines, length_octetLines]
  decide +kernel

theorem length_pppPlist : pppPlistStock.length = 530 ∧ pppPlistJob.length = 530 := by
  rw [pppPlistStock, pppPlistJob, length_octetLines, length_octetLines]
  decide +kernel

/-- The replacement of the record is as long as the record. -/
theorem length_fstabReplacement {size : Nat} {line : List Byte} (h : line.length < size) :
    (fstabReplacement size line).length = size := by
  rw [fstabReplacement]
  split_ifs with hpad
  · simp only [List.length_append, List.length_replicate, List.length_singleton]
    omega
  · simp only [List.length_append, List.length_nil, List.length_singleton]
    omega

/-! ### What the scanner reports -/

variable {pattern : List Byte}

/-- The scanner has gone over `w`. -/
structure Scanned (pattern w : List Byte) (s : Scan) : Prop where
  longest : Longest pattern w pattern.length s.matched
  hits : (occurrences pattern w).length = s.hits
  hit : s.hit = (occurrences pattern w).headD (2 ^ 64 - 1)

theorem Scanned.start (hp : pattern ≠ []) : Scanned pattern [] .start := by
  refine ⟨.nil hp, ?_, ?_⟩
  · rw [occurrences_nil hp]
    rfl
  · rw [occurrences_nil hp]
    rfl

/-- One octet more. -/
theorem Scanned.byte (hp : pattern ≠ []) {w : List Byte} {s : Scan} (h : Scanned pattern w s)
    (value : Byte) :
    Scanned pattern (w ++ [value]) (scanByte pattern (prefixTable pattern) s w.length value) := by
  obtain ⟨htable, hlen⟩ := prefixTable_table hp
  have hnext : Longest pattern (w ++ [value]) _ _ :=
    h.longest.advance htable le_rfl (hlen ▸ h.longest.lt.le)
  have hocc := occurrences_concat hp w value
  by_cases hfull : advance pattern (prefixTable pattern) value s.matched = pattern.length
  · have hsuffix := hnext.eq_length_iff.mp hfull
    rw [if_pos hsuffix] at hocc
    rw [scanByte, if_pos hfull]
    refine ⟨?_, ?_, ?_⟩
    · rw [hfull]
      exact .restart hp hsuffix
    · rw [hocc, List.length_append, List.length_singleton, h.hits]
    · rw [hocc, h.hit, ← h.hits]
      cases occurrences pattern w with
      | nil => rfl
      | cons i is => rfl
  · rw [scanByte, if_neg hfull]
    rw [if_neg fun hsuffix => hfull (hnext.eq_length_iff.mpr hsuffix), List.append_nil] at hocc
    exact ⟨hnext.of_ne hfull, hocc ▸ h.hits, hocc ▸ h.hit⟩

theorem scanByte_hits (prefixes : List Nat) (s : Scan) (position : Nat) (value : Byte) :
    (scanByte pattern prefixes s position value).hits ≤ s.hits + 1 := by
  by_cases hfull : advance pattern prefixes value s.matched = pattern.length
  · rw [scanByte, if_pos hfull]
  · rw [scanByte, if_neg hfull]
    exact Nat.le_succ _

/-- The scanner has gone over `w`, or it has met a second hit on the way. -/
def Reaches (pattern w : List Byte) (s : Scan) : Prop :=
  s.hits ≤ 1 ∧ Scanned pattern w s ∨ s.hits = 2 ∧ ∃ v, v <+: w ∧ Scanned pattern v s

/-- A buffer more. -/
theorem Scanned.chunk (hp : pattern ≠ []) {w : List Byte} {s : Scan} (h : Scanned pattern w s)
    (hfew : s.hits ≤ 1) (got : List Byte) :
    Reaches pattern (w ++ got)
      (scanChunk pattern (prefixTable pattern) s w.length got) := by
  induction got generalizing w s with
  | nil =>
    rw [scanChunk, List.append_nil]
    exact .inl ⟨hfew, h⟩
  | cons value rest ih =>
    have hbyte := h.byte hp value
    have hhits := @scanByte_hits pattern (prefixTable pattern) s w.length value
    rw [scanChunk, List.append_cons]
    split_ifs with hmany
    · exact .inr ⟨by omega, _, List.prefix_append _ _, hbyte⟩
    · have hrest := ih hbyte (Nat.not_lt.mp hmany)
      rwa [List.length_append, List.length_singleton] at hrest

/-- What is to be reported: the first occurrence, and whether there are none, one or more. -/
def report (pattern image : List Byte) : Nat × Nat :=
  ((occurrences pattern image).headD (2 ^ 64 - 1), min 2 (occurrences pattern image).length)

/-- The scanner reports it when it gets to the end, or to a second hit. -/
theorem Reaches.report (hp : pattern ≠ []) {image : List Byte} {s : Scan}
    (h : Reaches pattern image s) : (s.hit, s.hits) = report pattern image := by
  rcases h with ⟨hfew, h⟩ | ⟨htwo, v, ⟨rest, rfl⟩, h⟩
  · refine Prod.ext h.hit ?_
    change s.hits = min 2 _
    rw [h.hits]
    omega
  · have hhits := h.hits
    obtain ⟨more, hmore⟩ := occurrences_append hp v rest
    rw [Rootfs.report, ← hmore]
    refine Prod.ext ?_ ?_
    · rw [h.hit]
      cases hv : occurrences pattern v with
      | nil =>
        rw [hv, List.length_nil] at hhits
        omega
      | cons i is => rfl
    · change s.hits = min 2 _
      rw [List.length_append]
      omega

/-- The buffers of an image, one after the other. -/
theorem Scanned.run (hp : pattern ≠ []) (buffer : {n : Nat // 0 < n}) (image : List Byte)
    (offset : Nat) (s : Scan) (h : Scanned pattern (image.take offset) s) (hfew : s.hits ≤ 1)
    (hle : offset ≤ image.length) :
    ∃ s', (scanFrom image.length pattern (prefixTable pattern) buffer offset s).run
        (serve image) = .ok s' ∧ Reaches pattern image s' := by
  generalize hleft : image.length - offset = left
  induction left using Nat.strongRecOn generalizing offset s with
  | ind left ih =>
    have hbuffer := buffer.2
    rw [scanFrom]
    split_ifs with hin
    · rw [Reader.run]
      have hchunk := h.chunk hp hfew
        (serve image offset (min (image.length - offset) buffer))
      rw [List.length_take, Nat.min_eq_left hle, serve, ← List.take_add] at hchunk
      dsimp only
      split_ifs with hmany
      · refine ⟨_, rfl, .inr ?_⟩
        obtain ⟨hfew, _⟩ | ⟨htwo, v, hv, hscanned⟩ := hchunk
        · exact absurd hmany (Nat.not_lt.mpr hfew)
        · exact ⟨htwo, v, hv.trans (List.take_prefix _ _), hscanned⟩
      · obtain ⟨hfew, hscanned⟩ | ⟨htwo, _⟩ := hchunk
        · exact ih _ (by omega) _ _ hscanned hfew (by omega) rfl
        · exact absurd (htwo ▸ Nat.one_lt_two) hmany
    · refine ⟨s, rfl, .inl ⟨hfew, ?_⟩⟩
      rwa [List.take_of_length_le (Nat.not_lt.mp hin)] at h

/-- What the scanner reports of an image, for every size of the buffer. -/
theorem patternScanUnique_run (hp : pattern ≠ []) (buffer : {n : Nat // 0 < n})
    (image : List Byte) :
    (patternScanUnique image.length pattern buffer).run (serve image) =
      .ok (report pattern image) := by
  obtain ⟨s, hrun, hreaches⟩ :=
    Scanned.run hp buffer image 0 .start (.start hp) (Nat.zero_le 1) (Nat.zero_le _)
  rw [patternScanUnique, Reader.run_bind, hrun, ← hreaches.report hp]
  rfl

/-! ### What a write changes -/

/-- Only octets among the `n` from `i` on may differ. -/
def Within (i n : Nat) (f g : List Byte) : Prop :=
  g.length = f.length ∧ ∀ k, k < i ∨ i + n ≤ k → g[k]? = f[k]?

theorem Within.rfl {i n : Nat} {f : List Byte} : Within i n f f := ⟨.refl _, fun _ _ => .refl _⟩

/-- Octets written within the file change none outside. -/
theorem splice_within {f bytes : List Byte} {offset n : Nat} (hle : bytes.length ≤ n)
    (h : rangeValid offset bytes.length f.length) : Within offset n f (splice f offset bytes) := by
  refine ⟨length_splice f offset bytes h, fun k hk => ?_⟩
  obtain ⟨hoffset, hroom⟩ := h
  rw [splice, List.takeD_eq_take _ hoffset]
  have htake : (f.take offset).length = offset := by rw [List.length_take, Nat.min_eq_left hoffset]
  rcases hk with hk | hk
  · rw [List.append_assoc, List.getElem?_append_left (by omega), List.getElem?_take_of_lt hk]
  · have hlen : (f.take offset ++ bytes).length = offset + bytes.length := by
      rw [List.length_append, htake]
    rw [List.getElem?_append_right (by omega), hlen, List.getElem?_drop,
      Nat.add_sub_cancel' (by omega)]

/-- The step changes only octets among the `n` from `i` on of a temporary file of `size`. -/
def Touches (size i n : Nat) (j j' : Job) : Prop :=
  j.host.image.length = size → Within i n j.host.image j'.host.image

instance {size i n : Nat} : Std.Refl (Touches size i n) := ⟨fun _ _ => .rfl⟩

instance {size i n : Nat} : IsTrans Job (Touches size i n) where
  trans _ _ _ h h' hsize := by
    obtain ⟨hlen, hsame⟩ := h hsize
    obtain ⟨hlen', hsame'⟩ := h' (hlen.trans hsize)
    exact ⟨hlen'.trans hlen, fun k hk => (hsame' k hk).trans (hsame k hk)⟩

theorem Quiet.touches {α : Type} {m : Work α} (hm : Moves Quiet m) (size i n : Nat) :
    Moves (Touches size i n) m := by
  refine hm.mono fun j j' h _ => ?_
  rw [h.image]
  exact .rfl

theorem checkedWrite_touches (fileSize offset : Nat) (bytes : List Byte) (stage : Stage) :
    Moves (Touches fileSize offset bytes.length) (checkedWrite fileSize offset bytes stage) := by
  refine .ite (fun _ => Quiet.touches (failWith_quiet _ _ _ _) _ _ _) fun hrange => ?_
  have hwrite {part : List Byte} (hle : part.length ≤ bytes.length) :
      Moves (Touches fileSize offset bytes.length) (Attempt.update fun j =>
        { j with host := { j.host with image := splice j.host.image offset part } }) := by
    intro j hj
    obtain ⟨hoffset, hroom⟩ := not_not.mp hrange
    exact splice_within hle ⟨hj ▸ hoffset, hle.trans (hj ▸ hroom)⟩
  have hfile : Moves (Touches fileSize offset bytes.length) (hostFileWrite offset bytes) := by
    refine .either (.pure _) ?_
    refine (Quiet.touches hostCall_quiet _ _ _).bind fun f => .either ?_ ?_
    · refine (hwrite ?_).bind fun _ => .pure _
      rw [List.length_take]
      exact Nat.min_le_right _ _
    · exact (hwrite le_rfl).bind fun _ => .pure _
  refine hfile.bind fun done => ?_
  cases done with
  | ok _ => exact .pure _
  | error e => exact Quiet.touches (failWith_quiet _ _ _ _) _ _ _

/-! ### A host that does not fail -/

/-- No call of the host is going to fail. -/
def Smooth (j : Job) : Prop := ∀ f ∈ j.host.faults, f.errno = 0

variable {f : List Byte}

theorem hostCall_smooth :
    Meets (fun j => Smooth j ∧ j.host.image = f) hostCall
      (fun fault j => fault.errno = 0 ∧ Smooth j ∧ j.host.image = f) fun _ => False := by
  rintro j ⟨hsmooth, himage⟩
  rw [hostCall]
  cases hfaults : j.host.faults with
  | nil => exact ⟨rfl, hsmooth, himage⟩
  | cons fault rest =>
    rw [Smooth, hfaults] at hsmooth
    obtain ⟨hnow, hlater⟩ := List.forall_mem_cons.mp hsmooth
    exact ⟨hnow, hlater, (intrude_rest j.host fault.intruder).2.trans himage⟩

/-- A piece of the file that can be read and written. -/
def InReach (f : List Byte) (offset length : Nat) : Prop :=
  offset + length ≤ f.length ∧ offset ≤ int64Max

theorem checkedRead_smooth {offset length : Nat} (h : InReach f offset length) (stage : Stage) :
    Meets (fun j => Smooth j ∧ j.host.image = f)
      (checkedRead .temporary f.length offset length stage)
      (fun got j => got = serve f offset length ∧ Smooth j ∧ j.host.image = f)
      fun _ => False := by
  obtain ⟨hin, hreach⟩ := h
  refine .ite (fun hrange => absurd ⟨by omega, by omega⟩ hrange) fun _ => ?_
  have hread : Meets (fun j => Smooth j ∧ j.host.image = f)
      (hostFileRead .temporary offset length)
      (fun got j => got = .ok (serve f offset length) ∧ Smooth j ∧ j.host.image = f)
      fun _ => False := by
    refine .ite (fun hfar => absurd hreach (Nat.not_le.mpr hfar)) fun _ => ?_
    refine hostCall_smooth.bind fun fault => .given fun hnow => ?_
    refine .bind (Q := fun got j => got = serve f offset length ∧ Smooth j ∧
      j.host.image = f) (.ask ?_) fun got => ?_
    · rintro j ⟨hsmooth, rfl⟩
      exact ⟨rfl, hsmooth, rfl⟩
    · refine .given fun hgot => ?_
      refine .ite (fun hfails => absurd hnow hfails) fun _ => ?_
      refine .ite (fun hshort => absurd (hgot ▸ length_serve hin) hshort) fun _ => ?_
      exact .pure fun j hj => ⟨congrArg _ hgot, hj⟩
  refine hread.bind fun got => .given fun hgot => ?_
  subst hgot
  exact .pure fun j hj => ⟨rfl, hj⟩

/-- A step that only reads does what its program does. -/
theorem validate_smooth {α : Type} {stage : Stage} {m : Reader Failure Byte α} {a : α}
    (hreads : m.Reads (InReach f) fun _ => True) (hrun : m.run (serve f) = .ok a) :
    Meets (fun j => Smooth j ∧ j.host.image = f) (validate .temporary f.length stage m)
      (fun b j => b = a ∧ Smooth j ∧ j.host.image = f) fun _ => False := by
  induction m with
  | done b => exact .pure fun j hj => ⟨Except.ok.inj hrun, hj⟩
  | fail why => cases hrun
  | read offset length k ih =>
    refine (checkedRead_smooth hreads.1 stage).bind fun got => .given fun hgot => ?_
    subst hgot
    exact ih _ (hreads.2 _) hrun

theorem checkedWrite_smooth {offset : Nat} {bytes : List Byte}
    (h : InReach f offset bytes.length) (stage : Stage) :
    Meets (fun j => Smooth j ∧ j.host.image = f) (checkedWrite f.length offset bytes stage)
      (fun _ _ => True) fun _ => False := by
  obtain ⟨hin, hreach⟩ := h
  refine .ite (fun hrange => absurd ⟨by omega, by omega⟩ hrange) fun _ => ?_
  have hwrite : Meets (fun j => Smooth j ∧ j.host.image = f) (hostFileWrite offset bytes)
      (fun done _ => done = .ok ()) fun _ => False := by
    refine .ite (fun hfar => absurd hreach (Nat.not_le.mpr hfar)) fun _ => ?_
    refine hostCall_smooth.bind fun fault => .given fun hnow => ?_
    refine .ite (fun hfails => absurd hnow hfails) fun _ => ?_
    exact .bind (Q := fun _ _ => True) (.update fun _ _ => trivial) fun _ => .pure fun _ _ => rfl
  refine hwrite.bind fun done => ?_
  rintro j rfl
  trivial

/-! ### The rewrites -/

/-- The patch rewrites a record of the image where the stock one occurs exactly once, and changes
nothing outside that occurrence. On a host that does not fail it gets there. -/
structure Rewrites (f stock replacement : List Byte) (p : Patch Nat) : Prop where
  size : replacement.length = stock.length
  exact : Meets (fun j => j.host.image = f) (p.run f.length)
    (fun hit j => occurrences stock f = [hit] ∧
      j.host.image = f.take hit ++ replacement ++ f.drop (hit + stock.length))
    (fun j => j.host.image = f ∨
      ∃ hit, occurrences stock f = [hit] ∧ Within hit stock.length f j.host.image)
  smooth : f.length ≤ int64Max → (∃ hit, occurrences stock f = [hit]) →
    Meets (fun j => Smooth j ∧ j.host.image = f) (p.run f.length) (fun _ _ => True) fun _ => False

theorem fail_meets (f : List Byte) (why : Failure) :
    Meets (fun j => j.host.image = f) ((Patch.fail why : Patch Nat).run f.length)
      (fun _ _ => False) fun j => j.host.image = f :=
  fun _ hj => hj

theorem run_search {α β : Type} (n : Nat) (stage : Stage) (k : α → Patch β)
    (m : Reader Failure Byte α) :
    (Patch.search stage k m).run n =
      validate .temporary n stage m >>= fun a => (k a).run n := by
  induction m with
  | done a => rfl
  | fail why => rfl
  | read offset length next ih =>
    refine Eq.trans (congrArg (checkedRead .temporary n offset length stage >>= ·) (funext ih)) ?_
    funext j
    change Attempt.bind _ _ j = Attempt.bind (Attempt.bind _ _) _ j
    rw [Attempt.bind, Attempt.bind, Attempt.bind]
    rcases checkedRead .temporary n offset length stage j with ⟨_ | _, j'⟩ <;> rfl

/-- The scanner reads within the image. -/
theorem scanFrom_reads (hfits : f.length ≤ int64Max) (prefixes : List Nat)
    (buffer : {n : Nat // 0 < n}) (offset : Nat) (s : Scan) :
    (scanFrom f.length pattern prefixes buffer offset s).Reads (InReach f) fun _ => True := by
  generalize hleft : f.length - offset = left
  induction left using Nat.strongRecOn generalizing offset s with
  | ind left ih =>
    have hbuffer := buffer.2
    rw [scanFrom]
    split_ifs with hin
    · refine ⟨⟨by omega, by omega⟩, fun got => ?_⟩
      exact .either trivial <| ih _ (by omega) _ _ rfl
    · trivial

theorem report_eq_one_iff (stock f : List Byte) :
    (report stock f).2 = 1 ↔ ∃ hit, occurrences stock f = [hit] := by
  rw [report, ← List.length_eq_one_iff]
  dsimp only
  omega

/-- The scanner reports it of the temporary file unless the host fails, and leaves the file alone. -/
theorem patternScanUnique_meets (hp : pattern ≠ []) (f : List Byte) (buffer : {n : Nat // 0 < n})
    (stage : Stage) :
    Meets (fun j => j.host.image = f)
      (validate .temporary f.length stage (patternScanUnique f.length pattern buffer))
      (fun r j => r = report pattern f ∧ j.host.image = f) fun j => j.host.image = f := by
  have hboth := (validate_meets (f := f) (h := .temporary) f.length stage
    (patternScanUnique f.length pattern buffer)).and
      (content_meets (validate_quiet .temporary f.length stage _) .temporary f)
  refine hboth.weaken (fun _ hj => ⟨hj, hj⟩) ?_ fun _ hj => hj.2
  rintro r j ⟨hrun, hj⟩
  rw [patternScanUnique_run hp] at hrun
  exact ⟨(Except.ok.inj hrun).symm, hj⟩

/-- What a rewrite changes. -/
theorem recordRewrite_rewrites {stock replacement : List Byte} (hp : stock ≠ [])
    (hsize : replacement.length = stock.length) (buffer : {n : Nat // 0 < n})
    (notUnique : Status) (name : String) (scan write : Stage) :
    Rewrites f stock replacement
      (recordRewrite f.length buffer stock replacement notUnique name scan write) := by
  have hscan := patternScanUnique_meets hp f buffer scan
  have hin {hit : Nat} (honce : occurrences stock f = [hit]) :
      hit + replacement.length ≤ f.length := by
    rw [hsize]
    exact add_length_le (honce ▸ List.mem_singleton_self hit)
  refine ⟨hsize, ?_, fun hfits honce => ?_⟩
  · rw [recordRewrite, run_search]
    refine (hscan.weaken (fun _ hj => hj) (fun _ _ hj => hj) fun _ hj => .inl hj).bind fun r => ?_
    refine .given fun hr => ?_
    subst hr
    dsimp only
    split_ifs with hmany hnone
    · exact (fail_meets f _).weaken (fun _ hj => hj) (fun _ _ hj => hj.elim) fun _ hj => .inl hj
    · exact (fail_meets f _).weaken (fun _ hj => hj) (fun _ _ hj => hj.elim) fun _ hj => .inl hj
    · obtain ⟨hit, honce⟩ := (report_eq_one_iff stock f).mp (not_not.mp hnone)
      have hhit : (report stock f).1 = hit := by rw [report, honce]; rfl
      rw [hhit, Patch.run]
      have hwrite := (checkedWrite_meets (f := f) f.length hit replacement write).and
        ((checkedWrite_touches f.length hit replacement write).meets
          (P := fun j => Within hit stock.length f j.host.image ∧ j.host.image.length = f.length)
          fun j j' htouch hj => ?_)
      · refine .bind (hwrite.weaken ?_ (fun _ _ hj => hj.1) ?_) fun _ => .pure ?_
        · rintro j rfl
          exact ⟨rfl, .rfl, rfl⟩
        · exact fun j hj => .inr ⟨hit, honce, hj.2.1⟩
        · rintro j himage
          refine ⟨honce, himage.trans ?_⟩
          have hle := hin honce
          rw [splice, List.takeD_eq_take _ (by omega), hsize]
      · obtain ⟨⟨hlen, hsame⟩, hsized⟩ := hj
        obtain ⟨hlen', hsame'⟩ := htouch hsized
        rw [hsize] at hsame'
        exact ⟨⟨hlen'.trans hlen, fun k hk => (hsame' k hk).trans (hsame k hk)⟩,
          hlen'.trans hsized⟩
  · rw [recordRewrite, run_search]
    have hreads : (patternScanUnique f.length stock buffer).Reads (InReach f) fun _ => True :=
      (scanFrom_reads hfits _ _ _ _).bind fun _ _ => trivial
    refine (validate_smooth hreads (patternScanUnique_run hp buffer f)).bind fun r => ?_
    refine .given fun hr => ?_
    subst hr
    have hone := (report_eq_one_iff stock f).mpr honce
    obtain ⟨hit, honce⟩ := honce
    have hhit : (report stock f).1 = hit := by rw [report, honce]; rfl
    dsimp only
    rw [if_neg (by omega), if_neg (not_not.mpr hone), hhit, Patch.run]
    have hle := hin honce
    refine .bind (checkedWrite_smooth ⟨hle, by omega⟩ write) fun _ => ?_
    exact .pure fun _ _ => trivial

/-- A line that `fstab_rewrite` accepts: the octets before the zero are a line that leaves room for
its newline. -/
def AcceptedLine (line : List Byte) : Prop :=
  let text := line.takeWhile (· ≠ 0)
  text ≠ [] ∧ text.length < fstabStock.length ∧ 0x0a ∉ text ∧ 0x0d ∉ text

/-- The loop stops before the zero, at a newline, or after as many octets as it may take. -/
theorem lineSize_eq (left : Nat) (line : List Byte) :
    lineSize left line =
      if 0x0a ∈ (line.takeWhile (· ≠ 0)).take left ∨ 0x0d ∈ (line.takeWhile (· ≠ 0)).take left
      then none else some (min left (line.takeWhile (· ≠ 0)).length) := by
  induction left generalizing line with
  | zero => rw [lineSize, List.take_zero, if_neg (by simp), Nat.zero_min]
  | succ left ih =>
    cases line with
    | nil => rfl
    | cons value rest =>
      rw [lineSize]
      by_cases hzero : value = 0
      · subst hzero
        rfl
      · rw [if_neg hzero, List.takeWhile_cons_of_pos (by simpa using hzero), List.take_succ_cons,
          List.length_cons, ih]
        simp only [List.mem_cons]
        by_cases hbreak : value = 0x0a ∨ value = 0x0d
        · rw [if_pos hbreak, if_pos (hbreak.imp (fun h => .inl h.symm) fun h => .inl h.symm)]
        · rw [if_neg hbreak]
          obtain ⟨hnl, hcr⟩ := not_or.mp hbreak
          simp only [Ne.symm hnl, Ne.symm hcr, false_or]
          split_ifs
          · rfl
          · rw [Option.map_some, Nat.succ_min_succ]

/-- An accepted line is written with its newline and its padding. -/
theorem fstabRewrite_accepted {line : List Byte} (h : AcceptedLine line) (f : List Byte)
    (buffer : {n : Nat // 0 < n}) :
    Rewrites f fstabStock (fstabReplacement fstabStock.length (line.takeWhile (· ≠ 0)))
      (fstabRewrite f.length buffer (some line)) := by
  obtain ⟨hne, hlt, hnl, hcr⟩ := h
  have hpos := List.length_pos_iff.mpr hne
  have hstock : fstabStock ≠ [] := List.length_pos_iff.mp (length_fstabStock ▸ by decide)
  have hsize : lineSize fstabStock.length line = some (line.takeWhile (· ≠ 0)).length := by
    rw [lineSize_eq, List.take_of_length_le hlt.le, if_neg (not_or.mpr ⟨hnl, hcr⟩),
      Nat.min_eq_right hlt.le]
  have htext : line.take (line.takeWhile (· ≠ 0)).length = line.takeWhile (· ≠ 0) :=
    (List.prefix_iff_eq_take.mp (List.takeWhile_prefix _)).symm
  rw [fstabRewrite]
  simp only [hsize]
  rw [if_neg (by omega), htext]
  exact recordRewrite_rewrites hstock (length_fstabReplacement hlt) buffer _ _ _ _

/-- Any other line is refused before the image is looked at. -/
theorem fstabRewrite_refused {line : Option (List Byte)}
    (h : ∀ l, line = some l → ¬AcceptedLine l) (n : Nat) (buffer : {n : Nat // 0 < n}) :
    ∃ why, fstabRewrite n buffer line = .fail why := by
  cases line with
  | none => exact ⟨_, rfl⟩
  | some line =>
    have hrefused := h line rfl
    have hloop := lineSize_eq fstabStock.length line
    rw [fstabRewrite]
    split_ifs at hloop with hbreak
    · simp only [hloop]
      exact ⟨_, rfl⟩
    · simp only [hloop]
      rw [if_pos]
      · exact ⟨_, rfl⟩
      · by_contra hfits
        obtain ⟨hzero, hfits⟩ := not_or.mp hfits
        obtain ⟨hfull, hfits⟩ := not_or.mp hfits
        have hlt : (line.takeWhile (· ≠ 0)).length < fstabStock.length := by omega
        rw [List.take_of_length_le hlt.le] at hbreak
        refine hrefused ⟨?_, hlt, not_or.mp hbreak⟩
        intro hnil
        rw [hnil, List.length_nil, Nat.min_zero] at hzero
        exact hzero rfl

/-- The rewrite of a property list by another one of its length. -/
theorem plistRewrite_rewrites {stock replacement : List Byte} (hp : stock ≠ [])
    (hsize : replacement.length = stock.length) (f : List Byte) (buffer : {n : Nat // 0 < n})
    (invalid notUnique : Status) (what name : String) (scan write : Stage) :
    Rewrites f stock replacement (plistRewrite f.length buffer stock replacement invalid notUnique
      what name scan write) := by
  rw [plistRewrite, if_neg (not_not.mpr hsize)]
  exact recordRewrite_rewrites hp hsize buffer _ _ _ _

/-- The scanner reports whether a pattern occurs in the image, once or more often, and where first,
whatever the size of the buffer. A rewrite changes the image only where the stock record occurs
exactly once, and then only within the occurrence. The new table of file systems is the line, its
newline, and a padding that is empty or ends a comment. -/
theorem record_rewrites (buffer : {n : Nat // 0 < n}) (image : List Byte) :
    (∀ pattern : List Byte, pattern ≠ [] →
      (patternScanUnique image.length pattern buffer).run (serve image) =
          .ok (report pattern image) ∧
        ∀ stage, Meets (fun j => j.host.image = image)
          (validate .temporary image.length stage (patternScanUnique image.length pattern buffer))
          (fun r j => r = report pattern image ∧ j.host.image = image)
          fun j => j.host.image = image) ∧
    (∀ line, AcceptedLine line → ∃ padding,
      (padding = [] ∨ ∃ n, padding = List.replicate n 0x23 ++ [0x0a]) ∧
        Rewrites image fstabStock (line.takeWhile (· ≠ 0) ++ [0x0a] ++ padding)
          (fstabRewrite image.length buffer (some line))) ∧
    (∀ line : Option (List Byte), (∀ l, line = some l → ¬AcceptedLine l) →
      Meets (fun j => j.host.image = image)
        ((fstabRewrite image.length buffer line).run image.length) (fun _ _ => False)
        fun j => j.host.image = image) ∧
    Rewrites image caPlistStock caPlistSoftwareRender (caPlistRewrite image.length buffer) ∧
    Rewrites image pppPlistStock pppPlistJob (pppPlistRewrite image.length buffer) := by
  obtain ⟨hca, hca'⟩ := length_caPlist
  obtain ⟨hppp, hppp'⟩ := length_pppPlist
  refine ⟨fun pattern hp => ⟨patternScanUnique_run hp buffer image, fun stage =>
    patternScanUnique_meets hp image buffer stage⟩, fun line hline => ?_, fun line hline => ?_, ?_, ?_⟩
  · refine ⟨_, ?_, fstabRewrite_accepted hline image buffer⟩
    split_ifs
    · exact .inr ⟨_, rfl⟩
    · exact .inl rfl
  · obtain ⟨why, hfail⟩ := fstabRewrite_refused hline image.length buffer
    rw [hfail]
    exact fail_meets image why
  · exact plistRewrite_rewrites (List.length_pos_iff.mp (hca ▸ by decide)) (hca'.trans hca.symm)
      image buffer _ _ _ _ _ _
  · exact plistRewrite_rewrites (List.length_pos_iff.mp (hppp ▸ by decide))
      (hppp'.trans hppp.symm) image buffer _ _ _ _ _ _

end S5LBox.Rootfs
