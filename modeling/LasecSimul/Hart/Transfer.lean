import Mathlib.Algebra.GroupWithZero.Nat
import LasecSimul.Hart.Effects
import LasecSimul.Lib.Trace

/-!
# Block transfer

The counter of an open port, over runs of Commands 111 and 112, against the segments that were accepted.
-/

namespace LasecSimul.Hart

open Lib.Fallible HartEngine

variable {ρ σ : Type}

structure TransferSegment where
  counter : UInt16
  size : UInt8
  deriving DecidableEq, Repr

/-- What was accepted since the port was opened. -/
structure TransferLog where
  opening : UInt16
  accepted : List TransferSegment := []
  deriving DecidableEq, Repr

/-- The segments lie end to end, from one counter to the other. -/
def Follows : UInt16 → List TransferSegment → UInt16 → Prop
  | first, [], last => first = last
  | first, segment :: segments, last => segment.counter = first ∧ Follows (first + segment.size.toUInt16) segments last

def totalSize (segments : List TransferSegment) : Nat := (segments.map (·.size.toNat)).sum

namespace Follows

variable {first last : UInt16} {segments : List TransferSegment} {segment : TransferSegment}

theorem snoc (follows : Follows first segments last) (size : UInt8) :
    Follows first (segments ++ [⟨last, size⟩]) (last + size.toUInt16) := by
  induction segments generalizing first with
  | nil =>
    cases follows
    exact ⟨rfl, rfl⟩
  | cons segment segments ih => exact ⟨follows.1, ih follows.2⟩

theorem toNat_add (counter : UInt16) (size : UInt8) :
    (counter + size.toUInt16).toNat = (counter.toNat + size.toNat) % 65536 := by
  rw [UInt16.toNat_add, UInt8.toNat_toUInt16]

theorem last_eq (follows : Follows first segments last) : last.toNat = (first.toNat + totalSize segments) % 65536 := by
  induction segments generalizing first with
  | nil =>
    rw [← show first = last from follows]
    exact (Nat.mod_eq_of_lt first.toNat_lt).symm
  | cons segment segments ih =>
    rw [ih follows.2, toNat_add]
    simp only [totalSize, List.map_cons, List.sum_cons]
    omega

/-- No byte is skipped or accepted twice: a segment starts where those before it end. -/
theorem counter_eq (follows : Follows first segments last) {index : Nat} (here : segments[index]? = some segment) :
    segment.counter.toNat = (first.toNat + totalSize (segments.take index)) % 65536 := by
  induction segments generalizing first index with
  | nil => cases here
  | cons head segments ih =>
    cases index with
    | zero =>
      cases here
      rw [follows.1]
      exact (Nat.mod_eq_of_lt first.toNat_lt).symm
    | succ index =>
      rw [ih follows.2 here, toNat_add]
      simp only [totalSize, List.take_succ_cons, List.map_cons, List.sum_cons]
      omega

end Follows

namespace TransferLog

/-- The log after a command the device executed. -/
def record (log : Option TransferLog) (call : Call) : Option TransferLog :=
  if call.command = 0x6F then
    match call.request with
    | [function, _, _, high, low] =>
      if function = 1 then some { opening := readU16 high low } else if function = 3 then log else none
    | _ => log
  else
    match call.request with
    | function :: count :: masterHigh :: masterLow :: _ =>
      if function = 0 then
        log.map fun log => { log with accepted := log.accepted ++ [⟨readU16 masterHigh masterLow, count⟩] }
      else if function = 4 then none
      else log
    | _ => log

theorem record_service {call : Call} (command : call.command = 0x6F) {function port segment high low : UInt8}
    (request : call.request = [function, port, segment, high, low]) (log : Option TransferLog) :
    record log call =
      if function = 1 then some { opening := readU16 high low } else if function = 3 then log else none := by
  rw [record, if_pos command, request]

theorem record_segment {call : Call} (command : call.command = 0x70)
    {function count masterHigh masterLow : UInt8} {data : Bytes}
    (request : call.request = function :: count :: masterHigh :: masterLow :: data) (log : Option TransferLog) :
    record log call =
      if function = 0 then
        log.map fun log => { log with accepted := log.accepted ++ [⟨readU16 masterHigh masterLow, count⟩] }
      else if function = 4 then none
      else log := by
  rw [record, if_neg (by rw [command]; decide), request]

/-- The log of a device from now on. -/
def start (device : RuntimeDevice ρ) : Option TransferLog :=
  if device.transferOpen then some { opening := device.transferMasterCounter } else none

/-- The port is open exactly with a log, and its counter is where the accepted segments end. -/
def Accounts (device : RuntimeDevice ρ) : Option TransferLog → Prop
  | none => device.transferOpen = false
  | some log => device.transferOpen = true ∧ Follows log.opening log.accepted device.transferMasterCounter

theorem start_accounts (device : RuntimeDevice ρ) : Accounts device (start device) := by
  unfold start
  cases opened : device.transferOpen with
  | true => exact ⟨opened, rfl⟩
  | false => exact opened

end TransferLog

/-- Nothing in front of the command answers for it. -/
structure RuntimeDevice.Served (host : Host ρ σ) (device : RuntimeDevice ρ) (call : Call) : Prop where
  early : device.answerEarly call {} = none
  handler : host.handler call.command = none
  locked : device.locked call.command call.masterRole = false

/-- Port and counter are the same. -/
structure SamePort (before after : RuntimeDevice ρ) : Prop where
  opened : after.transferOpen = before.transferOpen
  counter : after.transferMasterCounter = before.transferMasterCounter

theorem SamePort.trans {a b c : RuntimeDevice ρ} (first : SamePort a b) (second : SamePort b c) : SamePort a c :=
  ⟨second.opened.trans first.opened, second.counter.trans first.counter⟩

theorem SamePort.accounts {before after : RuntimeDevice ρ} (same : SamePort before after) {log : Option TransferLog}
    (accounts : TransferLog.Accounts before log) : TransferLog.Accounts after log := by
  cases log with
  | none => exact same.opened.trans accounts
  | some log => exact ⟨same.opened.trans accounts.1, same.counter ▸ accounts.2⟩

/-- The response has room for the longest answer of a transfer command. -/
def Roomy (response : HartResponseBuilder) : Prop := response.bytes.length + 7 ≤ response.capacity

namespace RuntimeDevice

variable {device : RuntimeDevice ρ} {call : Call} {response : HartResponseBuilder} {log : Option TransferLog}

theorem transferService_accounts (command : call.command = 0x6F) (roomy : Roomy response)
    (accounts : TransferLog.Accounts device log) :
    ((device.transferService call.request response).executed = false ∧
        (device.transferService call.request response).device = device) ∨
      ((device.transferService call.request response).executed = true ∧
        TransferLog.Accounts (device.transferService call.request response).device (TransferLog.record log call)) := by
  have written : ∀ (function port segment : UInt8) (master slave : UInt16),
      (response.write ([[function], [port], [segment]] ++ put16 master ++ put16 slave)).1 = true := by
    intro function port segment master slave
    rw [HartResponseBuilder.write_fits]
    exact roomy
  unfold transferService
  split
  · rename_i function port segment high low request
    split
    · exact .inl ⟨rfl, rfl⟩
    split
    · exact .inl ⟨rfl, rfl⟩
    rename_i functions opened
    refine .inr ⟨written _ _ _ _ _, ?_⟩
    dsimp only [Answer.reply]
    rw [TransferLog.record_service command request]
    by_cases opening : function = 1
    · rw [if_pos opening, if_pos opening]
      exact ⟨rfl, rfl⟩
    by_cases clearing : function = 2
    · rw [if_neg opening, if_pos clearing, if_neg opening, clearing, if_neg (by decide)]
      rfl
    by_cases closing : function = 4
    · rw [if_neg opening, if_neg clearing, if_pos closing, if_neg opening, closing, if_neg (by decide)]
      rfl
    · have querying : function = 3 := by
        by_contra other
        exact functions (.inr (.inr (.inr ⟨opening, clearing, other, closing⟩)))
      rw [if_neg opening, if_neg clearing, if_neg closing, if_neg opening, if_pos querying]
      exact accounts
  · exact .inl ⟨rfl, rfl⟩

theorem transferSegment_accounts (command : call.command = 0x70) (roomy : Roomy response)
    (accounts : TransferLog.Accounts device log) :
    ((device.transferSegment call.request response).executed = false ∧
        (device.transferSegment call.request response).device = device) ∨
      ((device.transferSegment call.request response).executed = true ∧
        TransferLog.Accounts (device.transferSegment call.request response).device (TransferLog.record log call)) := by
  have written : ∀ (function : UInt8) (master slave : UInt16),
      (response.write ([[function], [0]] ++ put16 master ++ put16 slave)).1 = true := by
    intro function master slave
    rw [HartResponseBuilder.write_fits]
    exact Nat.le_of_succ_le roomy
  unfold transferSegment
  split
  · rename_i function count masterHigh masterLow slaveHigh slaveLow data request
    split
    · exact .inl ⟨rfl, rfl⟩
    split
    · exact .inl ⟨rfl, rfl⟩
    rename_i functions fits
    refine .inr ⟨written _ _ _, ?_⟩
    dsimp only [Answer.reply]
    rw [TransferLog.record_segment command request]
    by_cases sending : function = 0
    · rw [if_pos sending, if_pos sending]
      obtain ⟨_, others⟩ := not_or.mp (not_and.mp fits sending)
      obtain ⟨_, others⟩ := not_or.mp others
      obtain ⟨inOrder, _⟩ := not_or.mp others
      cases log with
      | none =>
        have closed : device.transferOpen = false := accounts
        exact absurd (not_not.mp (not_or.mp functions).1) (by rw [closed]; decide)
      | some log =>
        refine ⟨accounts.1, ?_⟩
        rw [not_not.mp inOrder]
        exact accounts.2.snoc count
    by_cases closing : function = 4
    · rw [if_neg sending, if_pos closing, if_neg sending, if_pos closing]
      rfl
    · rw [if_neg sending, if_neg closing, if_neg sending, if_neg closing]
      exact accounts
  · exact .inl ⟨rfl, rfl⟩

/-- A segment with another counter than the expected one is refused. -/
theorem transferSegment_refuses {count masterHigh masterLow slaveHigh slaveLow : UInt8} {data : Bytes}
    (request : call.request = 0 :: count :: masterHigh :: masterLow :: slaveHigh :: slaveLow :: data)
    (other : readU16 masterHigh masterLow ≠ device.transferMasterCounter) :
    device.transferSegment call.request response = .refuse device response := by
  unfold transferSegment
  rw [request]
  dsimp only
  split
  · rfl
  · rw [if_pos ⟨rfl, .inr (.inr (.inl other))⟩]

end RuntimeDevice

/-- One of the two transfer commands. -/
def Call.Transfers (call : Call) : Prop := call.command = 0x6F ∨ call.command = 0x70

theorem Call.Transfers.begin_port {call : Call} (transfers : call.Transfers) (device : RuntimeDevice ρ) :
    SamePort device (device.begin call) := by
  have other : call.command ≠ 0x2A := by
    rcases transfers with here | here <;> rw [here] <;> decide
  unfold RuntimeDevice.begin RuntimeDevice.prepare
  rw [if_neg fun both => other both.1]
  exact ⟨rfl, rfl⟩

theorem RuntimeDevice.answerEarly_port {device : RuntimeDevice ρ} {call : Call} {response : HartResponseBuilder}
    {answer : Answer ρ} (given : device.answerEarly call response = some answer) : SamePort device answer.device := by
  refine answerEarly_induct (P := fun answer => SamePort device answer.device) given ⟨rfl, rfl⟩ ⟨rfl, rfl⟩ ⟨rfl, rfl⟩
    ?_ ?_ ?_ fun _ _ => ⟨rfl, rfl⟩
  · unfold readTrend
    split
    · split
      · exact ⟨rfl, rfl⟩
      · dsimp only
        split <;> exact ⟨rfl, rfl⟩
    · exact ⟨rfl, rfl⟩
  · unfold readClientCounters
    split <;> exact ⟨rfl, rfl⟩
  · unfold readDeviceCounters
    split <;> exact ⟨rfl, rfl⟩

/-- The answer of the built-in command. -/
def RuntimeDevice.transfer (device : RuntimeDevice ρ) (call : Call) (response : HartResponseBuilder) : Answer ρ :=
  if call.command = 0x6F then device.transferService call.request response
  else device.transferSegment call.request response

theorem RuntimeDevice.answerBuiltIn_transfer {call : Call} (transfers : call.Transfers)
    (devices : List (RuntimeDevice ρ)) (device : RuntimeDevice ρ) (response : HartResponseBuilder) :
    answerBuiltIn devices device call response = some (device.transfer call response) := by
  unfold answerBuiltIn transfer
  rcases transfers with here | here
  · rw [here, if_neg (by decide), if_pos rfl, if_pos rfl]
  · rw [here, if_neg (by decide), if_neg (by decide), if_pos rfl, if_neg (by decide)]

/-- What an execution of Command 111 or 112 leaves. -/
inductive Transferred (host : Host ρ σ) (engine : HartEngine ρ σ) (i : Nat) (device : RuntimeDevice ρ) (call : Call)
    (response : HartResponseBuilder) : Outcome ρ σ → Prop
  | served (serves : (device.begin call).Served host call) : Transferred host engine i device call response
      ⟨((device.begin call).transfer call response).executed,
        engine.put i ((device.begin call).transfer call response).device,
        ((device.begin call).transfer call response).response⟩
  | otherwise {executed : Bool} {after : HartEngine ρ σ} {device' : RuntimeDevice ρ} {response' : HartResponseBuilder}
    (fails : ¬(device.begin call).Served host call) (there : after.devices[i]? = some device')
    (port : SamePort device device') : Transferred host engine i device call response ⟨executed, after, response'⟩

theorem execute_transferred {host : Host ρ σ} {engine : HartEngine ρ σ} {call : Call} {response : HartResponseBuilder}
    {outcome : Outcome ρ σ} {i : Nat} {device : RuntimeDevice ρ} (transfers : call.Transfers)
    (found : engine.lookup call.bus call.pollingAddress = some i) (here : engine.devices[i]? = some device)
    (ran : execute host engine call response = .ok outcome) :
    Transferred host engine i device call response outcome := by
  have inside : i < engine.devices.length := (List.getElem?_eq_some_iff.mp here).1
  have started := transfers.begin_port device
  rw [execute_eq, executeWith, found] at ran
  obtain ⟨device', read, ran⟩ := bind_ok ran
  obtain rfl : device' = device := Option.some.inj ((deref_ok read).2.symm.trans here)
  obtain ⟨_, written, ran⟩ := bind_ok ran
  obtain ⟨_, rfl⟩ := store_ok written
  change respond host _ (engine.put i (device'.begin call)) _ (device'.begin call) call response = .ok outcome at ran
  have put : ∀ device'' : RuntimeDevice ρ, (engine.devices.set i device'')[i]? = some device'' :=
    fun _ => List.getElem?_set_self inside
  unfold respond at ran
  split at ran
  · rename_i answer early
    obtain ⟨_, stored, ran⟩ := bind_ok ran
    obtain ⟨_, rfl⟩ := store_ok stored
    cases ran
    refine .otherwise (fun served => ?_) (by simp only [HartEngine.put, List.set_set]; exact put _)
      (started.trans (RuntimeDevice.answerEarly_port early))
    have free := RuntimeDevice.answerEarly_none served.early response
    rw [early] at free
    cases free
  rename_i early
  split at ran
  · rename_i native registered
    cases ran
    refine .otherwise (fun served => ?_) (put _) started
    have free := served.handler
    rw [registered] at free
    cases free
  rename_i native
  split at ran
  · rename_i locked
    obtain ⟨_, stored, ran⟩ := bind_ok ran
    obtain ⟨_, rfl⟩ := store_ok stored
    cases ran
    refine .otherwise (fun served => ?_) (by simp only [HartEngine.put, List.set_set]; exact put _) started
    have free := served.locked
    rw [locked] at free
    cases free
  rename_i unlocked
  rw [RuntimeDevice.answerBuiltIn_transfer transfers] at ran
  obtain ⟨_, stored, ran⟩ := bind_ok ran
  obtain ⟨_, rfl⟩ := store_ok stored
  cases ran
  have served : (device'.begin call).Served host call :=
    ⟨RuntimeDevice.answerEarly_none early _, native, Bool.eq_false_iff.mpr unlocked⟩
  have result : Transferred host engine i device' call response _ := .served served
  simpa only [HartEngine.put, List.set_set] using result

/-- A transfer command for the device at index `i`; the log keeps what the built-in command executed. -/
inductive TransferStep (host : Host ρ σ) (i : Nat) :
    HartEngine ρ σ × Option TransferLog → Call → HartEngine ρ σ × Option TransferLog → Prop
  | accepted {engine : HartEngine ρ σ} {log : Option TransferLog} {call : Call} {response : HartResponseBuilder}
    {outcome : Outcome ρ σ} {device : RuntimeDevice ρ} (transfers : call.Transfers) (roomy : Roomy response)
    (found : engine.lookup call.bus call.pollingAddress = some i) (here : engine.devices[i]? = some device)
    (ran : execute host engine call response = .ok outcome) (served : (device.begin call).Served host call)
    (executed : outcome.executed = true) :
    TransferStep host i (engine, log) call (outcome.engine, TransferLog.record log call)
  | other {engine : HartEngine ρ σ} {log : Option TransferLog} {call : Call} {response : HartResponseBuilder}
    {outcome : Outcome ρ σ} {device : RuntimeDevice ρ} (transfers : call.Transfers) (roomy : Roomy response)
    (found : engine.lookup call.bus call.pollingAddress = some i) (here : engine.devices[i]? = some device)
    (ran : execute host engine call response = .ok outcome)
    (rejected : ¬((device.begin call).Served host call ∧ outcome.executed = true)) :
    TransferStep host i (engine, log) call (outcome.engine, log)

/-- The log accounts for the device at index `i`. -/
def AccountsAt (i : Nat) (state : HartEngine ρ σ × Option TransferLog) : Prop :=
  ∃ device, state.1.devices[i]? = some device ∧ TransferLog.Accounts device state.2

theorem transfer_accounts {device : RuntimeDevice ρ} {call : Call} {response : HartResponseBuilder}
    {log : Option TransferLog} (transfers : call.Transfers) (roomy : Roomy response)
    (accounts : TransferLog.Accounts device log) :
    ((device.transfer call response).executed = false ∧ (device.transfer call response).device = device) ∨
      ((device.transfer call response).executed = true ∧
        TransferLog.Accounts (device.transfer call response).device (TransferLog.record log call)) := by
  unfold RuntimeDevice.transfer
  rcases transfers with here | here
  · rw [if_pos here]
    exact RuntimeDevice.transferService_accounts here roomy accounts
  · rw [if_neg (by rw [here]; decide)]
    exact RuntimeDevice.transferSegment_accounts here roomy accounts

theorem TransferStep.accounts {host : Host ρ σ} {i : Nat} {s t : HartEngine ρ σ × Option TransferLog} {call : Call}
    (step : TransferStep host i s call t) (accounts : AccountsAt i s) : AccountsAt i t := by
  obtain ⟨device, there, accounts⟩ := accounts
  cases step with
  | accepted transfers roomy found here ran served executed =>
    obtain rfl := Option.some.inj (here.symm.trans there)
    have started := (transfers.begin_port _).accounts accounts
    cases execute_transferred transfers found here ran with
    | served =>
      rcases transfer_accounts transfers roomy started with ⟨refused, _⟩ | ⟨_, after⟩
      · rw [refused] at executed
        cases executed
      · exact ⟨_, List.getElem?_set_self (List.getElem?_eq_some_iff.mp here).1, after⟩
    | otherwise fails => exact absurd served fails
  | other transfers roomy found here ran rejected =>
    obtain rfl := Option.some.inj (here.symm.trans there)
    have started := (transfers.begin_port _).accounts accounts
    cases execute_transferred transfers found here ran with
    | served served =>
      rcases transfer_accounts transfers roomy started with ⟨_, same⟩ | ⟨executed, _⟩
      · refine ⟨_, List.getElem?_set_self (List.getElem?_eq_some_iff.mp here).1, ?_⟩
        rw [same]
        exact started
      · exact absurd ⟨served, executed⟩ rejected
    | otherwise fails there port => exact ⟨_, there, port.accounts accounts⟩

/-- The counter of an open port is the opening one plus the sizes of the accepted segments, each of which starts where
those before it end. -/
structure Counted (device : RuntimeDevice ρ) (log : TransferLog) : Prop where
  opened : device.transferOpen = true
  counter : device.transferMasterCounter.toNat = (log.opening.toNat + totalSize log.accepted) % 65536
  position : ∀ index segment, log.accepted[index]? = some segment →
    segment.counter.toNat = (log.opening.toNat + totalSize (log.accepted.take index)) % 65536

/-- After any transfer commands an open port has counted what was accepted, and a segment with another counter than the
expected one is refused and changes nothing but the counts of messages. -/
theorem transfer_counted {host : Host ρ σ} {i : Nat} {engine after : HartEngine ρ σ} {device : RuntimeDevice ρ}
    {calls : List Call} {log : Option TransferLog} (here : engine.devices[i]? = some device)
    (run : Lib.Trace.Run (TransferStep host i) (engine, TransferLog.start device) calls (after, log)) :
    ∃ device', after.devices[i]? = some device' ∧
      (device'.transferOpen = true → ∃ log', log = some log' ∧ Counted device' log') ∧
      ∀ (call : Call) (count masterHigh masterLow slaveHigh slaveLow : UInt8) (data : Bytes)
        (response : HartResponseBuilder) (outcome : Outcome ρ σ), call.command = 0x70 →
        call.request = 0 :: count :: masterHigh :: masterLow :: slaveHigh :: slaveLow :: data →
        readU16 masterHigh masterLow ≠ device'.transferMasterCounter →
        after.lookup call.bus call.pollingAddress = some i → (device'.begin call).Served host call →
        execute host after call response = .ok outcome →
        outcome = ⟨false, after.put i (device'.begin call), response⟩ ∧ SamePort device' (device'.begin call) := by
  have begins : AccountsAt i (engine, TransferLog.start device) := ⟨device, here, TransferLog.start_accounts device⟩
  obtain ⟨device', there, accounts⟩ := run.invariant begins fun _ _ _ holds step => step.accounts holds
  refine ⟨device', there, ?_, ?_⟩
  · intro opened
    cases log with
    | none =>
      have closed : device'.transferOpen = false := accounts
      rw [opened] at closed
      cases closed
    | some log => exact ⟨log, rfl, accounts.1, accounts.2.last_eq, fun _ _ found => accounts.2.counter_eq found⟩
  · intro call count masterHigh masterLow slaveHigh slaveLow data response outcome command request other found served ran
    have transfers : call.Transfers := .inr command
    have port := transfers.begin_port device'
    refine ⟨?_, port⟩
    have refused : (device'.begin call).transfer call response = .refuse (device'.begin call) response := by
      unfold RuntimeDevice.transfer
      rw [if_neg (by rw [command]; decide)]
      exact RuntimeDevice.transferSegment_refuses request (by rw [port.counter]; exact other)
    cases execute_transferred transfers found there ran with
    | served =>
      rw [refused]
      rfl
    | otherwise fails => exact absurd served fails

/-- A port opened with counter 5. -/
def openDevice : RuntimeDevice Unit where
  plan := { id := "open", profileId := "open", bus := "hart-1", pollingAddress := 1, rest := () }
  profile := { id := "open", commands := [0x6F, 0x70] }
  transferOpen := true
  transferPort := 2
  transferMaximumSegment := 200
  transferMasterCounter := 5

def segmentCall (counter : UInt8) : Call :=
  { bus := "hart-1", pollingAddress := 1, command := 0x70, request := [0, 2, 0, counter, 0, 0, 0xAA, 0xBB] }

def portHost : Host Unit Unit := { profiles := fun _ => none, handler := fun _ => none, programHook := none }

/-- The segment at counter 5 is accepted and counted. -/
theorem transfer_counted_segment :
    Post False (execute portHost { devices := [openDevice], handlers := () } (segmentCall 5) { capacity := 255 })
      fun outcome => ∃ device', outcome.engine.devices[0]? = some device' ∧
        (device'.transferOpen = true → ∃ log',
          TransferLog.record (TransferLog.start openDevice) (segmentCall 5) = some log' ∧ Counted device' log') := by
  have accepts : (execute portHost { devices := [openDevice], handlers := () } (segmentCall 5)
      { capacity := 255 }).toOption.map (·.executed) = some true := by decide +kernel
  obtain ⟨outcome, ran, executed⟩ := toOption_map accepts
  have served : (openDevice.begin (segmentCall 5)).Served portHost (segmentCall 5) := ⟨rfl, rfl, rfl⟩
  have step : TransferStep portHost 0 ({ devices := [openDevice], handlers := () }, TransferLog.start openDevice)
      (segmentCall 5) (outcome.engine, TransferLog.record (TransferLog.start openDevice) (segmentCall 5)) :=
    .accepted (.inr rfl) (by unfold Roomy; decide) rfl rfl ran served executed
  rw [ran]
  obtain ⟨device', there, counted, _⟩ := transfer_counted rfl (.one step)
  exact ⟨device', there, counted⟩

end LasecSimul.Hart
