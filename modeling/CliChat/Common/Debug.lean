import CliChat.Common.Sodium
import CliChat.Lib.BoundedQueue

/-! @src common/src/debug.cpp | name:Debug | scheme:bounded queue

    The debug log of both programs: messages wait in a queue until they are dumped to a file. Each
    call holds `m_debugMutex` from its first to its last access, so the calls of several threads come
    one after the other. Timestamps, and whether a file opens, are inputs; a write to an opened file
    succeeds.

        Log ──▶ m_logQueue (at most MAX_LOG_ENTRIES) ──DumpToFile──▶ file
                    └── Flush ──▶ ∅ -/

namespace CliChat

open BoundedQueue (Op State pushed pending push_rtake run_queue run_output)

inductive LogLevel where | info | warning | error
  deriving DecidableEq

abbrev Path := Bytes

/-- The queue of `Debug`, the contents of the files, and the log of what was written to them. -/
structure Debug where
  logQueue : List Bytes
  files : Path → Bytes
  written : List (Path × Bytes)

namespace Debug

/-- `MAX_LOG_ENTRIES`. -/
def maxLogEntries : ℕ := 10000

def toString : LogLevel → Bytes
  | .info => ascii "INFO"
  | .warning => ascii "WARN"
  | .error => ascii "ERROR"

def mLog (msg : Bytes) (d : Debug) : Bool × Debug :=
  let queue := if maxLogEntries ≤ d.logQueue.length then d.logQueue.tail else d.logQueue
  (true, { d with logQueue := queue ++ [msg] })

/-- The stream of `Log`; `text` is what `<< msg` puts on it. -/
def entry (timestamp text : Bytes) (level : LogLevel) : Bytes :=
  ascii "[" ++ timestamp ++ ascii "] " ++ (ascii "[" ++ toString level ++ ascii "] ") ++ text

def log (timestamp text : Bytes) (level : LogLevel) (d : Debug) : Bool × Debug :=
  mLog (entry timestamp text level) d

/-- `Log<bool>`. -/
def logBool (timestamp : Bytes) (b : Bool) (level : LogLevel) (d : Debug) : Bool × Debug :=
  mLog (entry timestamp (if b then ascii "true" else ascii "false") level) d

/-- `file << msg << '\n'`. -/
def line (msg : Bytes) : Bytes := msg ++ ascii "\n"

/-- The loop of `DumpToFile`, on the queue that it empties. -/
def dumpLoop (path : Path) : List Bytes → Debug → Debug
  | [], d => d
  | front :: rest, d => dumpLoop path rest
      { logQueue := rest
        files := Function.update d.files path (d.files path ++ line front)
        written := d.written ++ [(path, front)] }

def dumpToFile (path : Path) (opens : Bool) (d : Debug) : Bool × Debug :=
  if d.logQueue.isEmpty then (true, d)
  else if !opens then (false, d)
  else (true, dumpLoop path d.logQueue d)

/-- The loop of `Flush`, on the queue that it empties. -/
def flushLoop : List Bytes → Debug → Debug
  | [], d => d
  | _ :: rest, d => flushLoop rest { d with logQueue := rest }

def flush (d : Debug) : Debug := flushLoop d.logQueue d

/-! ### Sequences of calls -/

inductive Call where
  | log (timestamp text : Bytes) (level : LogLevel)
  | logBool (timestamp : Bytes) (b : Bool) (level : LogLevel)
  | dumpToFile (path : Path) (opens : Bool)
  | flush

/-- A call, and what it returns. -/
def call : Call → Debug → Option Bool × Debug
  | .log timestamp text level, d => (log timestamp text level d).map some id
  | .logBool timestamp b level, d => (logBool timestamp b level d).map some id
  | .dumpToFile path opens, d => (dumpToFile path opens d).map some id
  | .flush, d => (none, flush d)

def exec (cs : List Call) (d : Debug) : Debug := cs.foldl (fun d c => (call c d).2) d

/-- The calls with what they returned. -/
def history : List Call → Debug → List (Call × Option Bool)
  | [], _ => []
  | c :: cs, d => (c, (call c d).1) :: history cs (call c d).2

/-- Before the first call. -/
def start (files : Path → Bytes) : Debug := ⟨[], files, []⟩

/-- What a call that returned does to the log: a message is added, or the log is flushed or
    successfully dumped. -/
def op : Call × Option Bool → Option (Op Bytes)
  | (.log timestamp text level, _) => some (.push (entry timestamp text level))
  | (.logBool timestamp b level, _) =>
    some (.push (entry timestamp (if b then ascii "true" else ascii "false") level))
  | (.dumpToFile _ _, some true) => some .drain
  | (.dumpToFile _ _, _) => none
  | (.flush, _) => some .clear

def ops (h : List (Call × Option Bool)) : List (Op Bytes) := h.filterMap op

/-- The lines that `file` got. -/
def linesOf (path : Path) (written : List (Path × Bytes)) : Bytes :=
  (written.filter fun w => w.1 = path).flatMap fun w => line w.2

/-! ### What one call does -/

section calls

variable {d : Debug} {path : Path} {opens : Bool}

theorem dumpLoop_eq (path : Path) : ∀ (q : List Bytes) (d : Debug), d.logQueue = q →
    dumpLoop path q d =
      { logQueue := []
        files := Function.update d.files path (d.files path ++ q.flatMap line)
        written := d.written ++ q.map fun msg => (path, msg) }
  | [], d, h => by
    obtain ⟨q, files, written⟩ := d
    obtain rfl : q = [] := h
    simp [dumpLoop]
  | front :: rest, d, _ => by
    rw [dumpLoop, dumpLoop_eq path rest _ rfl]
    simp [Function.update_idem, List.append_assoc]

/-- A dump succeeds unless its file does not open, and then it writes the whole queue. -/
theorem dumpToFile_true (h : d.logQueue = [] ∨ opens = true) :
    dumpToFile path opens d = (true,
      { logQueue := []
        files := Function.update d.files path (d.files path ++ d.logQueue.flatMap line)
        written := d.written ++ d.logQueue.map fun msg => (path, msg) }) := by
  unfold dumpToFile
  by_cases hq : d.logQueue = []
  · obtain ⟨q, files, written⟩ := d
    obtain rfl : q = [] := hq
    simp
  · have hopens : opens = true := h.resolve_left hq
    rw [if_neg (by simpa using hq), if_neg (by simp [hopens]), dumpLoop_eq path _ d rfl]

theorem dumpToFile_false (hq : d.logQueue ≠ []) : dumpToFile path false d = (false, d) := by
  unfold dumpToFile
  rw [if_neg (by simpa using hq), if_pos Bool.not_false]

theorem flushLoop_eq : ∀ (q : List Bytes) (d : Debug), d.logQueue = q →
    flushLoop q d = { d with logQueue := [] }
  | [], d, h => by rw [flushLoop, ← h]
  | _ :: rest, d, _ => by rw [flushLoop, flushLoop_eq rest _ rfl]

/-- The queue of the library, with the lines of all dumps. -/
def state (d : Debug) : State Bytes := ⟨d.logQueue, d.written.map Prod.snd⟩

/-- STEP: a call does to the queue what its operation says. -/
theorem call_state (c : Call) (d : Debug) :
    (call c d).2.state = (ops [(c, (call c d).1)]).foldl (BoundedQueue.step maxLogEntries) d.state := by
  cases c with
  | log timestamp text level => rfl
  | logBool timestamp b level => rfl
  | flush =>
    change (flushLoop d.logQueue d).state = _
    rw [flushLoop_eq _ d rfl]
    rfl
  | dumpToFile path opens =>
    by_cases h : d.logQueue = [] ∨ opens = true
    · rw [call, dumpToFile_true h]
      simp [ops, op, state, BoundedQueue.step, Function.comp_def]
    · obtain ⟨hq, hopens⟩ := not_or.mp h
      obtain rfl : opens = false := by simpa using hopens
      rw [call, dumpToFile_false hq]
      rfl

/-- The files grow by the lines that are logged as written to them. -/
def Appends (d d' : Debug) : Prop :=
  ∃ w, d'.written = d.written ++ w ∧ ∀ path, d'.files path = d.files path ++ linesOf path w

theorem Appends.refl (d : Debug) : Appends d d := ⟨[], by simp, fun path => by simp [linesOf]⟩

theorem Appends.trans {a b c : Debug} (h : Appends a b) (k : Appends b c) : Appends a c := by
  obtain ⟨w, hw, hfiles⟩ := h
  obtain ⟨w', hw', hfiles'⟩ := k
  refine ⟨w ++ w', by rw [hw', hw, List.append_assoc], fun path => ?_⟩
  rw [hfiles', hfiles, List.append_assoc, linesOf, linesOf, linesOf, List.filter_append,
    List.flatMap_append]

theorem linesOf_map (path path' : Path) (q : List Bytes) :
    linesOf path' (q.map fun msg => (path, msg)) = if path = path' then q.flatMap line else [] := by
  unfold linesOf
  by_cases h : path = path'
  · simp [List.filter_map, Function.comp_def, List.flatMap_map, h]
  · simp [List.filter_map, Function.comp_def, h]

theorem call_appends (c : Call) (d : Debug) : Appends d (call c d).2 := by
  cases c with
  | log timestamp text level => exact .refl d
  | logBool timestamp b level => exact .refl d
  | flush =>
    change Appends d (flushLoop d.logQueue d)
    rw [flushLoop_eq _ d rfl]
    exact .refl d
  | dumpToFile path opens =>
    by_cases h : d.logQueue = [] ∨ opens = true
    · rw [call, dumpToFile_true h]
      refine ⟨_, rfl, fun path' => ?_⟩
      rw [linesOf_map]
      by_cases hpath : path = path'
      · subst hpath
        simp
      · simp [hpath, Function.update_of_ne (Ne.symm hpath)]
    · obtain ⟨hq, hopens⟩ := not_or.mp h
      obtain rfl : opens = false := by simpa using hopens
      rw [call, dumpToFile_false hq]
      exact .refl d

end calls

/-! ### Runs -/

/-- REFINES: a sequence of calls does to the queue what its operations do. -/
theorem exec_state : ∀ (cs : List Call) (d : Debug),
    (exec cs d).state = (ops (history cs d)).foldl (BoundedQueue.step maxLogEntries) d.state
  | [], _ => rfl
  | c :: cs, d => by
    have hops : ops (history (c :: cs) d) =
        ops [(c, (call c d).1)] ++ ops (history cs (call c d).2) := by
      rw [history, ops, ops, ops, ← List.filterMap_append]
      rfl
    rw [hops, List.foldl_append, ← call_state]
    exact exec_state cs _

theorem exec_appends : ∀ (cs : List Call) (d : Debug), Appends d (exec cs d)
  | [], d => .refl d
  | c :: cs, d => (call_appends c d).trans (exec_appends cs _)

/-- BOUNDED LOG: after any calls the queue holds the last `MAX_LOG_ENTRIES` of the messages logged
    since it was last flushed or successfully dumped. A dump writes these and empties the queue,
    unless its file does not open, and then it changes nothing. What all dumps wrote are messages
    that were logged, in order and none of them twice. -/
theorem bounded_log (files : Path → Bytes) (cs : List Call) :
    let d := exec cs (start files)
    let h := ops (history cs (start files))
    let last := (pending h).rtake maxLogEntries
    d.logQueue = last ∧
      (∀ path opens, (dumpToFile path opens d).1 = true → (dumpToFile path opens d).2 =
        { logQueue := []
          files := Function.update d.files path (d.files path ++ last.flatMap line)
          written := d.written ++ last.map fun msg => (path, msg) }) ∧
      (∀ path opens, (dumpToFile path opens d).1 = true ↔ last = [] ∨ opens = true) ∧
      (∀ path, (dumpToFile path false d).2 = d) ∧
      (∀ path, d.files path = files path ++ linesOf path d.written) ∧
      (∃ f : Fin d.written.length ↪o Fin (pushed h).length,
        ∀ i, (d.written.get i).2 = (pushed h).get (f i)) ∧
      (d.written.flatMap fun w => line w.2).Sublist ((pushed h).flatMap line) := by
  intro d h last
  have hcap : 0 < maxLogEntries := by decide
  have hrun : d.state = BoundedQueue.run maxLogEntries h := exec_state cs (start files)
  have hqueue : d.logQueue = last := by
    have hq := run_queue hcap h
    rwa [← hrun] at hq
  have hdump : ∀ path opens, (dumpToFile path opens d).1 = true ↔ last = [] ∨ opens = true := by
    intro path opens
    rw [← hqueue]
    refine ⟨fun hok => ?_, fun hok => by rw [dumpToFile_true hok]⟩
    by_contra hno
    obtain ⟨hq, hopens⟩ := not_or.mp hno
    obtain rfl : opens = false := by simpa using hopens
    rw [dumpToFile_false hq] at hok
    cases hok
  have hsub : (d.written.map Prod.snd).Sublist (pushed h) := by
    have hout := run_output hcap h
    rw [← hrun] at hout
    exact (List.sublist_append_left _ _).trans hout
  refine ⟨hqueue, fun path opens hok => ?_, hdump, fun path => ?_, fun path => ?_, ?_, ?_⟩
  · rw [dumpToFile_true (hqueue ▸ (hdump path opens).mp hok), hqueue]
  · by_cases hq : d.logQueue = []
    · rw [dumpToFile, if_pos (by simpa using hq)]
    · rw [dumpToFile_false hq]
  · obtain ⟨w, hw, hfiles⟩ := exec_appends cs (start files)
    rw [hfiles path, hw]
    rfl
  · obtain ⟨f, hf⟩ := List.sublist_iff_exists_fin_orderEmbedding_get_eq.mp hsub
    have hlen : d.written.length = (d.written.map Prod.snd).length := by rw [List.length_map]
    refine ⟨(Fin.castOrderIso hlen).toOrderEmbedding.trans f, fun i => ?_⟩
    rw [RelEmbedding.trans_apply, ← hf]
    simp
  · rw [← List.flatMap_map]
    exact hsub.flatMap line

/-- A dump whose file does not open keeps the message for the next one. -/
example : (exec [.log [] (ascii "up") .info, .dumpToFile (ascii "a") false,
    .dumpToFile (ascii "b") true] (start fun _ => [])).written =
      [(ascii "b", ascii "[] [INFO] up")] := by decide +kernel

end Debug

end CliChat
