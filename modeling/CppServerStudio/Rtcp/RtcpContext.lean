import CppServerStudio.Library.Recents
import CppServerStudio.Library.Runs

/-!
# Sender reports

An `RtcpContextForSend` writes down when it created a sender report, by a key made of its NTP
timestamp. A map has room for four reports; of five, the one with the smallest key is dropped.

## Main definitions

* `RtcpContextForSend.createRtcpSR`: a sender report, and the map behind it
* `rtcpSystem`: the runs of a context
* `KeepsRecent`: the map holds the most recent reports
* `EachMeets`: the condition on the reports of a run

## Main results

* `lastSrLsr_eq`: when the key is the middle of the timestamp
* `keepsRecent_of_run`: the map holds the most recent reports along every run with the condition
-/

namespace CppServerStudio

open Recents

/-- The fields of a sender report, in the byte order of the host. -/
structure RtcpSR where
  ssrc : UInt32
  ntpmsw : UInt32 := 0
  ntplsw : UInt32 := 0
  rtpts : UInt32
  packetCount : UInt32
  octetCount : UInt32

namespace RtcpSR

/-- `fraction` is the product of floating-point numbers that the microseconds are made to. -/
def setNtpStamp (rtcp : RtcpSR) (unixStampMs : UInt64) (fraction : UInt32) : RtcpSR :=
  { rtcp with
    ntpmsw := UInt32.ofNat (unixStampMs.toNat / 1000 + 0x83AA7E80)
    ntplsw := fraction }

/-- The key of a report. `<<` binds more tightly than `&`. -/
def lastSrLsr (rtcp : RtcpSR) : UInt32 :=
  let mask := (0xFFFF : UInt32) <<< 16
  let low : UInt32 := rtcp.ntplsw >>> 16
  (rtcp.ntpmsw &&& mask) ||| (low &&& 0xFFFF)

/-- The middle 32 bits of the timestamp. -/
def middle32 (rtcp : RtcpSR) : UInt32 :=
  ((rtcp.ntpmsw &&& 0xFFFF) <<< 16) ||| (rtcp.ntplsw >>> 16)

/-- Each pair of words is that of some stamp. -/
theorem exists_setNtpStamp (rtcp : RtcpSR) (msw lsw : UInt32) : ∃ unixStampMs fraction,
    (rtcp.setNtpStamp unixStampMs fraction).ntpmsw = msw ∧
      (rtcp.setNtpStamp unixStampMs fraction).ntplsw = lsw := by
  let seconds := (msw.toNat + 2 ^ 32 - 0x83AA7E80) % 2 ^ 32
  have hlt := msw.toNat_lt
  refine ⟨UInt64.ofNat (seconds * 1000), lsw, ?_, rfl⟩
  have hstamp : (UInt64.ofNat (seconds * 1000)).toNat = seconds * 1000 := by
    rw [UInt64.toNat_ofNat']
    omega
  rw [setNtpStamp, hstamp, ← UInt32.toNat_inj, UInt32.toNat_ofNat']
  omega

/-- **The key** is the middle of the timestamp if the high word has the same two halves. -/
theorem lastSrLsr_eq {rtcp : RtcpSR} (h : rtcp.ntpmsw >>> 16 = rtcp.ntpmsw &&& 0xFFFF) :
    rtcp.lastSrLsr = rtcp.middle32 := by
  have hhigh : rtcp.ntpmsw &&& (0xFFFF : UInt32) <<< 16 = (rtcp.ntpmsw >>> 16) <<< 16 := by
    apply UInt32.toBitVec_inj.mp
    exact (BitVec.shiftLeft_ushiftRight (x := rtcp.ntpmsw.toBitVec) (n := 16)).symm
  have hlow : rtcp.ntplsw >>> 16 &&& (0xFFFF : UInt32) = rtcp.ntplsw >>> 16 := by
    have hlt : rtcp.ntplsw.toNat / 2 ^ 16 < 2 ^ 16 := by
      have hword := rtcp.ntplsw.toNat_lt
      omega
    rw [← UInt32.toNat_inj, UInt32.toNat_and, UInt32.toNat_shiftRight]
    change rtcp.ntplsw.toNat >>> 16 &&& (2 ^ 16 - 1) = rtcp.ntplsw.toNat >>> 16
    rw [Nat.shiftRight_eq_div_pow, Nat.and_two_pow_sub_one_eq_mod, Nat.mod_eq_of_lt hlt]
  rw [lastSrLsr, middle32, hhigh, hlow, h]

end RtcpSR

/-- The reports that were created, by their keys. -/
abbrev SenderReports := Std.ExtTreeMap UInt32 UInt32

structure RtcpContextForSend where
  bytes : UInt64 := 0
  packets : UInt64 := 0
  lastRtpStamp : UInt32 := 0
  lastNtpStampMs : UInt64 := 0
  senderReportNtp : SenderReports := ∅

/-- `Append` is called on a buffer that was never made. -/
inductive CreateFault
  | nullBuffer
  deriving DecidableEq

namespace RtcpContextForSend

variable (ctx : RtcpContextForSend)

def onRtp (_seq : UInt16) (stamp : UInt32) (ntpStampMs : UInt64) (_sampleRate : UInt32)
    (bytes : UInt64) : RtcpContextForSend :=
  { ctx with
    packets := ctx.packets + 1
    bytes := ctx.bytes + bytes
    lastRtpStamp := stamp
    lastNtpStampMs := ntpStampMs }

def onRtcp : RtcpContextForSend := ctx

/-- The report of a context. -/
def senderReport (fraction rtcpSsrc : UInt32) : RtcpSR :=
  RtcpSR.setNtpStamp
    { ssrc := rtcpSsrc
      rtpts := ctx.lastRtpStamp
      packetCount := ctx.packets.toUInt32
      octetCount := ctx.bytes.toUInt32 }
    ctx.lastNtpStampMs fraction

/-- **The update of the map**, at `now` microseconds. -/
def recordReport (rtcp : RtcpSR) (now : ℤ) : RtcpContextForSend :=
  let reports := ctx.senderReportNtp.insert rtcp.lastSrLsr (UInt32.ofInt now)
  { ctx with senderReportNtp := if 5 ≤ reports.size then eraseBegin reports else reports }

/-- **`createRtcpSR`**: the context behind the call, and how it ends. -/
def createRtcpSR (fraction rtcpSsrc : UInt32) (now : ℤ) :
    RtcpContextForSend × Except CreateFault RtcpSR :=
  (ctx.recordReport (ctx.senderReport fraction rtcpSsrc) now, .error .nullBuffer)

end RtcpContextForSend

/-! ## Runs -/

/-- A call. That of `createRtcpSR` has the report that is created, and the time. -/
inductive RtcpCall
  | onRtp (seq : UInt16) (stamp : UInt32) (ntpStampMs : UInt64) (sampleRate : UInt32)
      (bytes : UInt64)
  | onRtcp
  | createRtcpSR (rtcp : RtcpSR) (now : ℤ)

/-- **The runs of a context**. A call of `createRtcpSR` is followed up to its update of the map. -/
def rtcpSystem : LTS RtcpContextForSend RtcpCall where
  init ctx := ctx = {}
  step
    | ctx, .onRtp seq stamp ntpStampMs sampleRate bytes, ctx' =>
      ctx' = ctx.onRtp seq stamp ntpStampMs sampleRate bytes
    | ctx, .onRtcp, ctx' => ctx' = ctx.onRtcp
    | ctx, .createRtcpSR rtcp now, ctx' => ∃ fraction rtcpSsrc,
      rtcp = ctx.senderReport fraction rtcpSsrc ∧
        ctx' = (ctx.createRtcpSR fraction rtcpSsrc now).1

/-- The reports of some calls: the middle of each timestamp, and when the report was created. -/
def reports (calls : List RtcpCall) : List (UInt32 × UInt32) :=
  calls.filterMap fun
    | .createRtcpSR rtcp now => some (rtcp.middle32, UInt32.ofInt now)
    | _ => none

/-- **The map holds the most recent reports**: the last one, and no more than four. -/
structure KeepsRecent (history : List (UInt32 × UInt32)) (m : SenderReports) : Prop where
  latest : ∀ earlier report, history = earlier ++ [report] → m[report.1]? = some report.2
  size_le : m.size ≤ 4
  recent : m = .ofList (recents 4 history)

/-- **The condition** on a report: the halves of its high word are the same, and it pushes out the
oldest report. -/
structure Meets (history : List (UInt32 × UInt32)) (rtcp : RtcpSR) : Prop where
  halves : rtcp.ntpmsw >>> 16 = rtcp.ntpmsw &&& 0xFFFF
  oldest : DropsOldest 4 history rtcp.middle32

/-- The condition on each report of some calls. -/
def EachMeets (calls : List RtcpCall) : Prop :=
  ∀ earlier rtcp now later, calls = earlier ++ .createRtcpSR rtcp now :: later →
    Meets (reports earlier) rtcp

variable {calls : List RtcpCall} {ctx : RtcpContextForSend} {history : List (UInt32 × UInt32)}
  {rtcp : RtcpSR} {now : ℤ}

theorem keepsRecent_of_eq {m : SenderReports} (h : m = .ofList (recents 4 history)) :
    KeepsRecent history m := by
  have hkeys : (keys (recents 4 history)).Nodup := nodup_keys_recents
  constructor
  · rintro earlier report rfl
    rw [h, getElem?_ofList hkeys, recents_snoc]
    exact List.mem_cons_self
  · rw [h]
    exact Std.ExtTreeMap.size_ofList_le.trans length_recents_le
  · exact h

/-- **One report** with the condition. -/
theorem Meets.recordReport (h : Meets history rtcp)
    (hctx : KeepsRecent history ctx.senderReportNtp) :
    KeepsRecent (history ++ [(rtcp.middle32, UInt32.ofInt now)])
      (ctx.recordReport rtcp now).senderReportNtp := by
  apply keepsRecent_of_eq
  rw [RtcpContextForSend.recordReport, RtcpSR.lastSrLsr_eq h.halves]
  exact insert_ofList_recents (e := (rtcp.middle32, UInt32.ofInt now)) hctx.recent h.oldest

theorem reports_snoc {call : RtcpCall} :
    reports (calls ++ [call]) = reports calls ++ reports [call] := List.filterMap_append

theorem EachMeets.of_snoc {call : RtcpCall} (h : EachMeets (calls ++ [call])) :
    EachMeets calls := by
  rintro earlier rtcp now later rfl
  exact h earlier rtcp now (later ++ [call]) (by simp)

theorem EachMeets.snoc {call : RtcpCall} (h : EachMeets calls)
    (hcall : ∀ rtcp now, call = .createRtcpSR rtcp now → Meets (reports calls) rtcp) :
    EachMeets (calls ++ [call]) := by
  intro earlier rtcp now later heq
  rcases List.eq_nil_or_concat later with rfl | ⟨later, last, rfl⟩
  · obtain ⟨rfl, hlast⟩ := List.append_inj' heq rfl
    exact hcall rtcp now (List.singleton_inj.mp hlast)
  · rw [List.concat_eq_append, ← List.cons_append, ← List.append_assoc] at heq
    exact h earlier rtcp now later (List.append_inj' heq rfl).1

theorem eachMeets_nil : EachMeets [] := by
  intro earlier rtcp now later heq
  exact absurd heq.symm (by simp)

/-- **Each run** whose reports meet the condition keeps the most recent ones. -/
theorem keepsRecent_of_run (hr : rtcpSystem.Run calls ctx) (hmeets : EachMeets calls) :
    KeepsRecent (reports calls) ctx.senderReportNtp := by
  revert hmeets
  refine hr.history (I := fun calls ctx => EachMeets calls →
    KeepsRecent (reports calls) ctx.senderReportNtp) ?_ ?_
  · rintro ctx rfl -
    exact keepsRecent_of_eq rfl
  · intro calls ctx call ctx' ih hstep hmeets
    have hctx := ih hmeets.of_snoc
    rw [reports_snoc]
    cases call with
    | onRtp seq stamp ntpStampMs sampleRate bytes =>
      obtain rfl := hstep
      rwa [show reports [RtcpCall.onRtp seq stamp ntpStampMs sampleRate bytes] = [] from rfl,
        List.append_nil]
    | onRtcp =>
      obtain rfl := hstep
      rwa [show reports [RtcpCall.onRtcp] = [] from rfl, List.append_nil]
    | createRtcpSR rtcp now =>
      obtain ⟨fraction, rtcpSsrc, rfl, rfl⟩ := hstep
      exact (hmeets calls _ now [] rfl).recordReport hctx

theorem run_createRtcpSR (hr : rtcpSystem.Run calls ctx) (fraction rtcpSsrc : UInt32) (now : ℤ) :
    rtcpSystem.Run (calls ++ [.createRtcpSR (ctx.senderReport fraction rtcpSsrc) now])
      (ctx.createRtcpSR fraction rtcpSsrc now).1 :=
  .snoc hr ⟨fraction, rtcpSsrc, rfl, rfl⟩

/-- Five reports with increasing keys, and a high word of zero. -/
theorem keepsRecent_five : ∃ (calls : List RtcpCall) (ctx : RtcpContextForSend),
    (reports calls).length = 5 ∧ KeepsRecent (reports calls) ctx.senderReportNtp := by
  have hstart : rtcpSystem.Run ([] ++ [.onRtp 0 90000 2085978496000 90000 1400])
      (({} : RtcpContextForSend).onRtp 0 90000 2085978496000 90000 1400) := .snoc (.nil rfl) rfl
  have hrun := run_createRtcpSR (run_createRtcpSR (run_createRtcpSR (run_createRtcpSR
    (run_createRtcpSR hstart 0x10000 7 10) 0x20000 7 20) 0x30000 7 30) 0x40000 7 40)
    0x50000 7 50
  refine ⟨_, _, ?_, keepsRecent_of_run hrun ?_⟩
  · rfl
  · refine (((((eachMeets_nil.snoc ?_).snoc ?_).snoc ?_).snoc ?_).snoc ?_).snoc ?_
    · intro rtcp now heq
      cases heq
    all_goals
      intro rtcp now heq
      cases heq
      exact ⟨by decide, by decide⟩

/-- The first report of a context: its key is 0x83AA0000, and the middle of its timestamp is
0x7E800000. -/
theorem not_keepsRecent : ¬ ∀ (calls : List RtcpCall) (ctx : RtcpContextForSend),
    rtcpSystem.Run calls ctx → KeepsRecent (reports calls) ctx.senderReportNtp := by
  intro h
  have hrun := run_createRtcpSR (.nil rfl : rtcpSystem.Run [] {}) 0 7 0
  have hlatest := (h _ _ hrun).latest [] _ rfl
  have hkey : (({} : RtcpContextForSend).senderReport 0 7).lastSrLsr = 0x83AA0000 := by decide
  have hsize : ¬ 5 ≤ ((∅ : SenderReports).insert 0x83AA0000 (UInt32.ofInt 0)).size := by
    rw [Std.ExtTreeMap.size_insert, Std.ExtTreeMap.size_empty]
    decide
  have hmap : (({} : RtcpContextForSend).createRtcpSR 0 7 0).1.senderReportNtp =
      (∅ : SenderReports).insert 0x83AA0000 (UInt32.ofInt 0) := by
    rw [RtcpContextForSend.createRtcpSR, RtcpContextForSend.recordReport, hkey]
    simp only [if_neg hsize]
  rw [hmap, Std.ExtTreeMap.getElem?_insert, if_neg (by decide)] at hlatest
  cases hlatest

end CppServerStudio
