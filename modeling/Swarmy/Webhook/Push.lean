import Swarmy.Shell.Words
import Swarmy.Js.Value
import Mathlib.Logic.Function.Basic

/-!
# Pushing an inbound delivery to a queue

The scripts that the worker runs in a container of the cache's primary: one `RPUSH`, or the
three commands that insert a BullMQ job.  The command line client exits with 0 when the server
answers with an error and prints it, and with 1 when there is no answer.
`deliverToQueue_took`: an exit of 0 means that the queue took the body where the server
answered no push with an error.
-/

namespace Inbound

open List Option Function

open Shell (Text)

/-! ## The server -/

inductive Value where
  | counter (n : Nat)
  | list (items : List Text)
  | hash (fields : List (Text × Text))
deriving DecidableEq

abbrev Db := Text → Option Value

/-- The list at a key; none where there is another value. -/
def items : Option Value → Option (List Text)
  | none => some []
  | some (.list xs) => some xs
  | some _ => none

def fields : Option Value → Option (List (Text × Text))
  | none => some []
  | some (.hash fs) => some fs
  | some _ => none

def count : Option Value → Option Nat
  | none => some 0
  | some (.counter n) => some n
  | some _ => none

def digits (n : Nat) : Text := Nat.toDigits 10 n

/-- Fields and values in turn. -/
def pairs : List Text → Option (List (Text × Text))
  | [] => some []
  | [_] => none
  | f :: v :: rest => (pairs rest).map ((f, v) :: ·)

def setFields (fs new : List (Text × Text)) : List (Text × Text) :=
  new.foldl (fun fs x => x :: fs.filter (·.1 ≠ x.1)) fs

/-- The commands of the scripts, where they can be executed. -/
def execute (db : Db) (name key : Text) (args : List Text) : Option (Db × Text) :=
  if name = "INCR".toList then
    (count (db key)).map fun n =>
      (update db key (some (.counter (n + 1))), digits (n + 1))
  else if name = "RPUSH".toList then
    (items (db key)).map fun xs =>
      (update db key (some (.list (xs ++ args))), digits (xs.length + args.length))
  else if name = "LPUSH".toList then
    (items (db key)).map fun xs =>
      (update db key (some (.list (args.reverse ++ xs))), digits (xs.length + args.length))
  else if name = "HSET".toList then
    (fields (db key)).bind fun fs => (pairs args).map fun new =>
      (update db key (some (.hash (setFields fs new))), digits new.length)
  else none

/-- What the server does with a command: it executes it, refuses it with an error, or the
connection is lost before or after. -/
inductive Answer where
  | executes
  | refuses (error : Text)
  | lost (executed : Bool)

def Answer.isLost : Answer → Bool
  | .lost _ => true
  | _ => false

def Answer.isError : Answer → Bool
  | .refuses _ => true
  | _ => false

/-- The client: what is stored after a command, its exit code and what it prints.  A command that
cannot be executed is not. -/
def cli (db : Db) (answer : Answer) : List Text → Option (Db × Nat × Text)
  | name :: key :: args =>
    match answer with
    | .executes => (execute db name key args).map fun x => (x.1, 0, x.2)
    | .refuses error => some (db, 0, error)
    | .lost true => (execute db name key args).map fun x =>
      (x.1, 1, "Error: Server closed the connection".toList)
    | .lost false => some (db, 1, "Could not connect".toList)
  | _ => some (db, 0, "ERR wrong number of arguments".toList)

/-! ## Scripts -/

/-- A command, by what follows `cliPrefix`, whose output may be given to a variable. -/
structure Step where
  var : Option Text
  command : Text

/-- Commands that are joined by `&&`. -/
abbrev Script := List Step

def Step.bind (step : Step) (env : Text → Text) (out : Text) : Text → Text :=
  match step.var with
  | none => env
  | some name => update env name out

@[simp]
theorem Step.bind_none (command : Text) (env : Text → Text) (out : Text) :
    Step.bind ⟨none, command⟩ env out = env := rfl

@[simp]
theorem Step.bind_some (name command : Text) (env : Text → Text) (out : Text) :
    Step.bind ⟨some name, command⟩ env out name = out := by
  simp [Step.bind]

def Step.prints (step : Step) (out : Text) : Text := if step.var.isSome then [] else out

/-- `sh -c`: what is stored, the exit code and the output. -/
def run (env : Text → Text) (db : Db) : List Answer → Script → Option (Db × Nat × Text)
  | _, [] => some (db, 0, [])
  | answers, step :: rest =>
    match Shell.words env .plain step.command with
    | none => some (db, 2, "Syntax error".toList)
    | some args =>
      (cli db (answers.headD (.lost false)) args).bind fun x =>
        if x.2.1 ≠ 0 then some x
        else (run (step.bind env x.2.2) x.1 answers.tail rest).map fun y =>
          (y.1, y.2.1, step.prints x.2.2 ++ y.2.2)

def listPushScript (queue body : Text) : Script :=
  [⟨none, Shell.spaced ["RPUSH".toList, Shell.quote queue, Shell.quote body]⟩]

def idKey (queue : Text) : Text := "bull:".toList ++ queue ++ ":id".toList

def waitKey (queue : Text) : Text := "bull:".toList ++ queue ++ ":wait".toList

def jobKey (queue id : Text) : Text := ("bull:".toList ++ queue ++ ":".toList) ++ id

def bullmqPushScript (queue dataJson : Text) (timestampMs : Nat) : Script :=
  [⟨some "ID".toList, Shell.spaced ["INCR".toList, Shell.quote (idKey queue)]⟩,
    ⟨none, Shell.spaced ["HSET".toList,
      Shell.quoteVar ("bull:".toList ++ queue ++ ":".toList) "ID".toList,
      "name".toList, Shell.quote "webhook".toList, "data".toList, Shell.quote dataJson,
      "opts".toList, Shell.quote "\x7b\x7d".toList, "timestamp".toList, digits timestampMs,
      "delay".toList, "0".toList, "priority".toList, "0".toList, "attemptsMade".toList,
        "0".toList]⟩,
    ⟨none, Shell.spaced ["LPUSH".toList, Shell.quote (waitKey queue),
      Shell.quoteVar [] "ID".toList]⟩]

/-! ## Words of the scripts -/

theorem isSafe_digits (n : Nat) : (digits n).all Shell.isSafe = true := by
  rw [List.all_eq_true]
  intro c hc
  have hdigit := Nat.isDigit_of_mem_toDigits (by decide) (by decide) hc
  simp [Shell.isSafe, Char.isAlphanum, hdigit]

/-- `SAFE_KEY_RE`. -/
def SAFE_KEY_RE (queue : Text) : Bool := queue ≠ [] && queue.all Shell.isSafe

variable {key queue text : Text} {db db' : Db} {answers : List Answer} {args : List Text}
  {x : Db × Nat × Text} {now : Nat}

theorem isSafe_key (h : SAFE_KEY_RE queue = true) :
    ("bull:".toList ++ queue ++ ":".toList).all Shell.isSafe = true := by
  simp only [SAFE_KEY_RE, Bool.and_eq_true] at h
  rw [all_append, all_append, h.2]
  decide

variable (env : Text → Text)

theorem words_rpush (queue body : Text) :
    Shell.words env .plain (Shell.spaced ["RPUSH".toList, Shell.quote queue, Shell.quote body]) =
      some ["RPUSH".toList, queue, body] :=
  Shell.words_spaced (.cons (Shell.reads_safe (by decide)) <| .cons (Shell.reads_quote _) <|
    .cons (Shell.reads_quote _) .nil) (by simp)

theorem words_incr (key : Text) :
    Shell.words env .plain (Shell.spaced ["INCR".toList, Shell.quote key]) =
    some ["INCR".toList, key] :=
  Shell.words_spaced (.cons (Shell.reads_safe (by decide)) <|
    .cons (Shell.reads_quote _) .nil) (by simp)

theorem words_lpush (key : Text) : Shell.words env .plain
      (Shell.spaced ["LPUSH".toList, Shell.quote key, Shell.quoteVar [] "ID".toList]) =
        some ["LPUSH".toList, key, env "ID".toList] :=
  Shell.words_spaced (.cons (Shell.reads_safe (by decide)) <| .cons (Shell.reads_quote _) <|
    .cons (Shell.reads_quoteVar (by simp) (by decide)) .nil) (by simp)

/-- The arguments of the `HSET` behind its key. -/
def jobFields (dataJson : Text) (timestampMs : Nat) : List Text :=
  ["name".toList, "webhook".toList, "data".toList, dataJson, "opts".toList, "\x7b\x7d".toList,
    "timestamp".toList, digits timestampMs, "delay".toList, "0".toList,
      "priority".toList, "0".toList,
    "attemptsMade".toList, "0".toList]

theorem words_hset (h : SAFE_KEY_RE queue = true) (dataJson : Text) (timestampMs : Nat) :
    Shell.words env .plain (Shell.spaced ["HSET".toList,
      Shell.quoteVar ("bull:".toList ++ queue ++ ":".toList) "ID".toList,
      "name".toList, Shell.quote "webhook".toList, "data".toList, Shell.quote dataJson,
      "opts".toList, Shell.quote "\x7b\x7d".toList, "timestamp".toList, digits timestampMs,
      "delay".toList, "0".toList, "priority".toList, "0".toList, "attemptsMade".toList,
      "0".toList]) =
      some ("HSET".toList :: jobKey queue (env "ID".toList) :: jobFields dataJson timestampMs) := by
  have hsafe {w : Text} (hw : w.all Shell.isSafe = true) : Shell.Reads env w w :=
    Shell.reads_safe hw
  have hquote (w : Text) : Shell.Reads env (Shell.quote w) w := Shell.reads_quote w
  refine Shell.words_spaced ?_ (by simp)
  exact .cons (hsafe (by decide)) <|
    .cons (Shell.reads_quoteVar (isSafe_key h) (by decide)) <|
    .cons (hsafe (by decide)) <| .cons (hquote _) <| .cons (hsafe (by decide)) <|
      .cons (hquote _) <|
    .cons (hsafe (by decide)) <| .cons (hquote _) <| .cons (hsafe (by decide)) <|
    .cons (hsafe (isSafe_digits timestampMs)) <| .cons (hsafe (by decide)) <|
      .cons (hsafe (by decide)) <|
    .cons (hsafe (by decide)) <| .cons (hsafe (by decide)) <| .cons (hsafe (by decide)) <|
    .cons (hsafe (by decide)) .nil

/-! ## What the scripts do -/

theorem run_command {env : Text → Text} {step : Step} {rest : Script}
    (h : Shell.words env .plain step.command = some args)
    (hrun : run env db answers (step :: rest) = some x) (hx : x.2.1 = 0) :
    ∃ y z, cli db (answers.headD (.lost false)) args = some y ∧ y.2.1 = 0 ∧
      run (step.bind env y.2.2) y.1 answers.tail rest = some z ∧ z.1 = x.1 ∧ z.2.1 = 0 := by
  rw [run, h] at hrun
  obtain ⟨y, hy, hcont⟩ := bind_eq_some_iff.1 hrun
  split_ifs at hcont with hcode
  · cases hcont
    exact absurd hx hcode
  · obtain ⟨z, hz, rfl⟩ := map_eq_some_iff.1 hcont
    exact ⟨y, z, hy, not_not.1 hcode, hz, rfl, hx⟩

/-- A client that exits with 0 was answered. -/
theorem cli_zero {a : Answer} {name : Text} {y : Db × Nat × Text}
    (h : cli db a (name :: key :: args) = some y) (hy : y.2.1 = 0) :
    a = .executes ∧ execute db name key args = some (y.1, y.2.2) ∨
      ∃ error, a = .refuses error ∧ y = (db, 0, error) := by
  cases a with
  | executes =>
    obtain ⟨x, hx, rfl⟩ := map_eq_some_iff.1 h
    exact .inl ⟨rfl, hx⟩
  | refuses error => exact .inr ⟨error, rfl, (some.inj h).symm⟩
  | lost executed =>
    cases executed with
    | true =>
      obtain ⟨x, hx, rfl⟩ := map_eq_some_iff.1 h
      cases hy
    | false =>
      cases h
      cases hy

/-! ## The target -/

inductive Convention where
  | bullmq
  | list

/-- The queue took the text: it is the list's last entry, or the data of the job whose id is the
first that waits. -/
def took (convention : Convention) (queue text : Text) (db db' : Db) : Bool :=
  match convention with
  | .list =>
    match items (db queue) with
    | some old => db' queue = some (.list (old ++ [text]))
    | none => false
  | .bullmq =>
    match items (db (waitKey queue)), items (db' (waitKey queue)) with
    | some old, some (id :: rest) =>
      rest = old ∧
        ((fields (db' (jobKey queue id))).bind (List.lookup "data".toList)) = some text
    | _, _ => false

def pushScript (convention : Convention) (queue text : Text) (now : Nat) : Script :=
  match convention with
  | .bullmq => bullmqPushScript queue text now
  | .list => listPushScript queue text

/-- No push of the script is answered with an error, or not all of it is answered. -/
def Pushed (convention : Convention) (answers : List Answer) : Prop :=
  match convention with
  | .list => (answers.headD (.lost false)).isError = false
  | .bullmq =>
    (answers.headD (.lost false)).isLost = false →
    (answers.tail.headD (.lost false)).isLost = false →
    (answers.tail.tail.headD (.lost false)).isLost = false →
    (answers.tail.headD (.lost false)).isError = false ∧
      (answers.tail.tail.headD (.lost false)).isError = false

theorem took_listPushScript {env : Text → Text}
    (hrun : run env db answers (listPushScript queue text) = some x)
    (hx : x.2.1 = 0) (hp : Pushed .list answers) : took .list queue text db x.1 = true := by
  obtain ⟨y, z, hy, hy0, hz, hzx, -⟩ := run_command (words_rpush env queue text) hrun hx
  obtain rfl : (y.1, 0, []) = z := some.inj hz
  rw [← hzx]
  rcases cli_zero hy hy0 with ⟨-, hexec⟩ | ⟨error, ha, -⟩
  · obtain ⟨old, hold, heq⟩ : ∃ old, items (db queue) = some old ∧
        (update db queue (some (.list (old ++ [text]))),
          digits (old.length + 1)) = (y.1, y.2.2) := by
      simpa [execute] using hexec
    rw [← (Prod.mk.inj heq).1]
    simp [took, hold]
  · have hp' : (answers.headD (.lost false)).isError = false := hp
    rw [ha] at hp'
    cases hp'

theorem lookup_setFields_job (fs : List (Text × Text)) (dataJson : Text) (now : Nat) :
    ∃ new, pairs (jobFields dataJson now) = some new ∧
      (setFields fs new).lookup "data".toList = some dataJson := by
  refine ⟨_, rfl, ?_⟩
  simp [setFields, lookup_cons]

theorem waitKey_ne_idKey (queue : Text) : waitKey queue ≠ idKey queue := by
  intro h
  have hsuffix := append_cancel_left h
  revert hsuffix
  decide

theorem isLost_of_cli_zero {a : Answer} {name : Text} {y : Db × Nat × Text}
    (h : cli db a (name :: key :: args) = some y) (hy : y.2.1 = 0) : a.isLost = false := by
  rcases cli_zero h hy with ⟨rfl, -⟩ | ⟨error, rfl, -⟩ <;> rfl

/-- A command that is not refused was executed. -/
theorem execute_of_cli_zero {a : Answer} {name : Text}
    {y : Db × Nat × Text} (h : cli db a (name :: key :: args) = some y) (hy : y.2.1 = 0)
    (ha : a.isError = false) : execute db name key args = some (y.1, y.2.2) := by
  rcases cli_zero h hy with ⟨-, hexec⟩ | ⟨error, rfl, -⟩
  · exact hexec
  · cases ha

theorem execute_incr {out : Text}
    (h : execute db "INCR".toList key [] = some (db', out)) {k : Text} (hk : k ≠ key) :
    db' k = db k := by
  obtain ⟨n, -, heq⟩ : ∃ n, count (db key) = some n ∧
      (update db key (some (.counter (n + 1))), digits (n + 1)) = (db', out) := by
    simpa [execute] using h
  rw [← (Prod.mk.inj heq).1, update_of_ne hk]

theorem execute_hset {out : Text}
    (h : execute db "HSET".toList key (jobFields text now) = some (db', out)) :
    (∃ fs, db' key = some (.hash fs) ∧ fs.lookup "data".toList = some text) ∧
      ∀ k ≠ key, db' k = db k := by
  have hexec : ((fields (db key)).bind fun fs => (pairs (jobFields text now)).map fun new =>
      (update db key (some (.hash (setFields fs new))), digits new.length)) = some (db', out) := by
    simpa [execute] using h
  obtain ⟨fs, -, hnew⟩ := bind_eq_some_iff.1 hexec
  obtain ⟨new, hpairs, heq⟩ := map_eq_some_iff.1 hnew
  obtain ⟨new', hpairs', hdata⟩ := lookup_setFields_job fs text now
  obtain rfl : new = new' := some.inj (hpairs.symm.trans hpairs')
  rw [← (Prod.mk.inj heq).1]
  exact ⟨⟨_, update_self .., hdata⟩, fun k hk => update_of_ne hk ..⟩

theorem execute_lpush {out value : Text}
    (h : execute db "LPUSH".toList key [value] = some (db', out)) :
    (∃ old, items (db key) = some old ∧ db' key = some (.list (value :: old))) ∧
      ∀ k ≠ key, db' k = db k := by
  obtain ⟨old, hold, heq⟩ : ∃ old, items (db key) = some old ∧
      (update db key (some (.list (value :: old))), digits (old.length + 1)) = (db', out) := by
    simpa [execute] using h
  rw [← (Prod.mk.inj heq).1]
  exact ⟨⟨old, hold, update_self ..⟩, fun k hk => update_of_ne hk ..⟩

/-- The queue that an entry is pushed to is not the hash of a job. -/
theorem took_bullmqPushScript {env : Text → Text} (hsafe : SAFE_KEY_RE queue = true)
    (hrun : run env db answers (bullmqPushScript queue text now) = some x) (hx : x.2.1 = 0)
    (hp : Pushed .bullmq answers) : took .bullmq queue text db x.1 = true := by
  obtain ⟨y₁, z₁, hy₁, hcode₁, hz₁, hzx₁, hz0₁⟩ :=
    run_command (words_incr env (idKey queue)) hrun hx
  obtain ⟨y₂, z₂, hy₂, hcode₂, hz₂, hzx₂, hz0₂⟩ :=
    run_command (words_hset _ hsafe text now) hz₁ hz0₁
  obtain ⟨y₃, z₃, hy₃, hcode₃, hz₃, hzx₃, -⟩ := run_command (words_lpush _ (waitKey queue)) hz₂ hz0₂
  obtain rfl : (y₃.1, 0, []) = z₃ := some.inj hz₃
  -- the increment may have been refused: its error is then the id
  have hwait : y₁.1 (waitKey queue) = db (waitKey queue) := by
    rcases cli_zero hy₁ hcode₁ with ⟨-, hexec⟩ | ⟨error, -, hy⟩
    · exact execute_incr hexec (waitKey_ne_idKey queue)
    · rw [hy]
  obtain ⟨he₂, he₃⟩ := hp (isLost_of_cli_zero hy₁ hcode₁) (isLost_of_cli_zero hy₂ hcode₂)
    (isLost_of_cli_zero hy₃ hcode₃)
  rw [Step.bind_some] at hy₂
  obtain ⟨⟨fs, hfs, hdata⟩, hother₂⟩ := execute_hset (execute_of_cli_zero hy₂ hcode₂ he₂)
  obtain ⟨⟨old, hold, hlist⟩, hother₃⟩ := execute_lpush (execute_of_cli_zero hy₃ hcode₃ he₃)
  have hne : jobKey queue y₁.2.2 ≠ waitKey queue := by
    intro heq
    rw [← heq, hfs] at hold
    cases hold
  have hjob : fields (y₃.1 (jobKey queue y₁.2.2)) = some fs := by
    rw [hother₃ _ hne, hfs]
    rfl
  have hitems : items (y₃.1 (waitKey queue)) = some (y₁.2.2 :: old) := by
    rw [hlist]
    rfl
  have hold' : items (db (waitKey queue)) = some old := by
    rw [← hwait, ← hother₂ _ hne.symm]
    exact hold
  rw [← hzx₁, ← hzx₂, ← hzx₃]
  simp only [took, hold', hitems, hjob, bind_some, hdata, and_self, decide_true]

theorem took_pushScript {env : Text → Text} {convention : Convention}
    (hsafe : SAFE_KEY_RE queue = true)
    (hrun : run env db answers (pushScript convention queue text now) = some x) (hx : x.2.1 = 0)
    (hp : Pushed convention answers) : took convention queue text db x.1 = true := by
  cases convention with
  | list => exact took_listPushScript hrun hx hp
  | bullmq => exact took_bullmqPushScript hsafe hrun hx hp

/-! ## `deliverToQueue` -/

structure QueueTarget where
  cacheCluster : String
  queue : Text
  convention : Convention

/-- What the inventory says of the cluster: nothing, that its primary has no running container, or
where to run the script. -/
inductive Place where
  | noCluster
  | noContainer (primary : String)
  | container

/-- How the script runs, and whether the call that runs it throws. -/
structure Exec where
  answers : List Answer
  thrown : Option String

/-- What is stored after a delivery to a queue, and the error if there is one. -/
def deliverToQueue (target : QueueTarget) (text : Text) (now : Nat) (place : Place) (exec : Exec)
    (db : Db) : Option (Db × Option String) :=
  if SAFE_KEY_RE target.queue = false then
    some (db, some ("unsafe queue name \"" ++ String.ofList target.queue ++ "\""))
  else match place with
    | .noCluster => some (db, some ("cache cluster \"" ++ target.cacheCluster ++ "\" not found"))
    | .noContainer primary =>
      some (db, some ("cache primary \"" ++ primary ++ "\" has no running container"))
    | .container =>
      (run (fun _ => []) db exec.answers (pushScript target.convention target.queue text now)).map
        fun x => (x.1, match exec.thrown with
          | some message => some message
          | none =>
            if x.2.1 = 0 then none
            else some ("redis push exited " ++ toString x.2.1 ++ ": " ++
              String.ofList (x.2.2.take 200)))

/-- A delivery without an error was taken, where no push was answered with one. -/
theorem deliverToQueue_took {target : QueueTarget} {place : Place}
    {exec : Exec} (h : deliverToQueue target text now place exec db = some (db', none))
    (hp : exec.thrown = none → Pushed target.convention exec.answers) :
    took target.convention target.queue text db db' = true := by
  unfold deliverToQueue at h
  split_ifs at h with hsafe
  · simp at h
  · cases place with
    | noCluster => simp at h
    | noContainer primary => simp at h
    | container =>
      obtain ⟨x, hrun, heq⟩ := map_eq_some_iff.1 h
      obtain ⟨rfl, herror⟩ := Prod.mk.inj heq
      cases ht : exec.thrown with
      | some message => simp [ht] at herror
      | none =>
        refine took_pushScript (by simpa using hsafe) hrun ?_ (hp ht)
        by_contra hne
        simp [ht, hne] at herror

end Inbound
