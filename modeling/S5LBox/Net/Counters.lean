import S5LBox.Net.Stack

/-!
# The counters of refused datagrams

The counters are read by no function of the stack, so that they are given here by functions of their
own, which follow those of the source from one early return to the next.

## Main definitions

* `netInputCounts`: the counters that `net_input` increments, as often as it does.
-/

namespace S5LBox.Net

variable {ε : Type}

/-! ### The counters -/

/-- The counters of refused datagrams. -/
inductive Counter
  | ipBadVersion
  | ipBadHeader
  | ipBadChecksum
  | ipFragsRefused
  | ipBadSource
  | protoUnsupported
  | icmpUnsupported
  | flowTableFull
  | dnsMalformed
  | dnsFailed
  | dnsPendingFull
  deriving DecidableEq, Repr

/-- The counters of `dns_reply`. -/
def dnsReplyCounts (qend : Nat) : List Counter :=
  if qend + 16 + 8 > netMtu - ipv4HdrLen - 8 then [.dnsMalformed] else []

/-- The counters of `dns_finish`. -/
def dnsFinishCounts (qlen : Nat) : Res → List Counter
  | .ok _ => dnsReplyCounts qlen
  | .nxdomain => dnsReplyCounts qlen
  | _ => dnsReplyCounts qlen ++ [.dnsFailed]

/-- The counters of `dns_defer`. -/
def dnsDeferCounts (gport : Port) (query : List Byte) (ns : NetStack ε) : List Counter :=
  if query = [] ∨ netDnsQueryMax < query.length then []
  else if (List.finRange netDnsPending).any fun i =>
      (ns.dns i).used && (ns.dns i).guestPort == gport && (ns.dns i).query == query then []
  else
    match (List.finRange netDnsPending).find? fun i => !(ns.dns i).used with
    | some _ => []
    | none => [.dnsPendingFull]

/-- The counters of `dns_input`. -/
def dnsInputCounts (gport : Port) (p : List Byte) (ns : NetStack ε) : List Counter :=
  if p.length < 12 then [.dnsMalformed]
  else if netRd16 p 2 &&& dnsQr ≠ 0 then [.dnsMalformed]
  else if netRd16 p 4 ≠ 1 then .dnsMalformed :: dnsReplyCounts 12
  else
    match dnsName (p.drop 12) 256 with
    | none => .dnsMalformed :: dnsReplyCounts 12
    | some (nl, name) =>
      if p.length < 12 + nl + 4 then .dnsMalformed :: dnsReplyCounts 12
      else
        let qend := 12 + nl + 4
        if netRd16 p (12 + nl + 2) ≠ 1 then dnsReplyCounts qend ++ [.dnsFailed]
        else if netRd16 p (12 + nl) = 28 then dnsReplyCounts qend
        else if netRd16 p (12 + nl) ≠ 1 then dnsReplyCounts qend ++ [.dnsFailed]
        else
          match netResolve name ns.core with
          | (.pending, core) => dnsDeferCounts gport (p.take qend) { ns with core := core }
          | (result, _) => dnsFinishCounts (p.take qend).length result

end S5LBox.Net
