import K3smApis.ReplaceCheck
import K3smApis.UpdateRuns
import K3smApis.WrapperList

/-!
# The whole check

`check` of hack/verify-deps.sh: the guard of the go environment, the list of wrapper graphs,
and the lock, the cooldown and the malicious-package check over the repository's graph and
over each wrapper's, before the replace discipline and the pinned tools. `go mod verify` and
the scan for pinned tools are answers of the run.
-/
namespace K3smApis.Deps

/-- `PROXY_URL` -/
def proxyUrl : Text := "https://proxy.golang.org".toList

inductive EnvError where
  | sumdb (value : Text)
  | exempts (name value : Text)
  | flag (flag : Text)
  | proxy (value : Text)
  | vcs (value : Text)
  deriving DecidableEq, Repr

/-- `t.rsplit(":", 1)`, none without a colon. -/
def rcutColon (t : Text) : Option (Text × Text) :=
  if ':' ∈ t then
    some ((t.rdropWhile (· ≠ ':')).dropLast, t.rtakeWhile (· ≠ ':'))
  else none

/-- One entry of `cmd_govcs`. -/
def govcsEntry (entry : Text) : Bool :=
  strip entry = [] ||
    match rcutColon (strip entry) with
    | none => false
    | some (pattern, vcs) =>
      pattern = "private".toList ||
        (vcs.splitOn '|').all (fun v => v ∈ ["git".toList, "hg".toList, "off".toList])

/-- `cmd_govcs`: whether it exits with 0. -/
def cmdGovcs (value : Text) : Bool := (value.splitOn ',').all govcsEntry

/-- `go env` and `printenv` by name, empty where there is none. -/
structure GoEnv where
  goEnv : Text → Text
  printenv : Text → Text

/-- A variable as `go env` prints it, or else as the process has it. -/
def GoEnv.either (e : GoEnv) (name : Text) : Text :=
  if e.goEnv name = [] then e.printenv name else e.goEnv name

/-- The variables that exempt modules from the proxy or the checksum database. -/
def exemptingNames : List Text :=
  ["GONOSUMDB", "GONOSUMCHECK", "GOINSECURE", "GOPRIVATE", "GONOPROXY"].map String.toList

/-- The flag, alone or with a value, after one dash or two. -/
def isFlag (name f : Text) : Bool :=
  [name, '-' :: name].any (fun n => f = n || f.hasPrefix (n ++ ['=']))

/-- The flags that the guard refuses in GOFLAGS. -/
def refusedFlag (f : Text) : Bool :=
  isFlag "-insecure".toList f || f = "-mod=mod".toList || f = "--mod=mod".toList ||
    isFlag "-modfile".toList f

/-- `env_guard` -/
def envGuard (e : GoEnv) : List EnvError :=
  let sumdb := e.goEnv "GOSUMDB".toList
  let proxy := e.goEnv "GOPROXY".toList
  let govcs := e.either "GOVCS".toList
  (if sumdb = [] ∨ sumdb = "sum.golang.org".toList then [] else [.sumdb sumdb]) ++
    (exemptingNames.filter (fun n => e.either n ≠ [])).map (fun n => .exempts n (e.either n)) ++
    ((fields (e.goEnv "GOFLAGS".toList)).filter refusedFlag).map .flag ++
    (if proxy = [] ∨ proxy = proxyUrl ∨ proxy = proxyUrl ++ ",direct".toList then []
      else [.proxy proxy]) ++
    if govcs ≠ [] ∧ cmdGovcs govcs = false then [.vcs govcs] else []

/-- `LOCK` -/
def lockPath : Text := "hack/deps.lock".toList

/-- What a run finds: the environment, the checkout, the answer of `go mod verify`, what
`go list` prints, the regular files, the locks of the merge base, the exemptions, and whether
the tools are pinned, next to the `grep` of the machine. Each lock is checked in a world of
its own, since the clock and the servers move on. -/
structure CheckRun where
  env : GoEnv
  checkout : Checkout
  modVerify : Bool
  goList : Option Text
  files : Text → Option Text
  base : Text → Option Text
  exempt : List Text
  world : Text → World
  grep : Grep
  server : Text → Server
  tools : Bool

inductive CheckFailure where
  | environment (errors : List EnvError)
  | wrappers (errors : List WrapperError)
  | modVerify
  | goList
  /-- `names $name but $sum does not exist` -/
  | sumMissing (name : Text)
  | sumGraph (name : Text) (e : SumError)
  | lockMissing (lock : Text)
  /-- `$lock is out of date` -/
  | lockDiffers (lock : Text)
  | cooldown (lock : Text) (f : Failure)
  | malicious (lock : Text) (f : OsvFailure)
  | goMod
  | replace
  | tools
  deriving DecidableEq

/-- An error of a stage, as the failure of the check. -/
def orFail {ε α : Type} (fail : ε → CheckFailure) : Except ε α → Except CheckFailure α
  | .ok a => .ok a
  | .error e => .error (fail e)

/-- `lock_compare`, `cooldown_verify` and `malicious_check` of a lock and its graph. -/
def checkGraph (r : CheckRun) (lock graph : Text) : Except CheckFailure Unit :=
  match r.files lock with
  | none => .error (.lockMissing lock)
  | some text => do
    Check.refuseIf (lockdiff (some (Lines.fileLines text)) (Lines.fileLines graph) ≠ 0)
      (.lockDiffers lock)
    orFail (.cooldown lock) (cooldownVerify (r.world lock) ((r.base lock).map Lines.fileLines)
      (Lines.fileLines text) r.exempt)
    let _ ← orFail (fun f => .malicious lock f.1)
      (maliciousCheck r.grep (r.server lock) osvBatchSize (Lines.fileLines text))
    .ok ()

/-- `wrapper_check` -/
def wrapperCheck (r : CheckRun) (w : Wrapper) : Except CheckFailure Unit :=
  match r.files w.sum with
  | none => .error (.sumMissing w.name)
  | some text => do
    let graph ← orFail (.sumGraph w.name) (sumGraph text)
    checkGraph r w.lock graph

/-- The loop of `check` over the wrappers. -/
def wrapperChecks (r : CheckRun) : List Wrapper → Except CheckFailure Unit
  | [] => .ok ()
  | w :: ws => do
    wrapperCheck r w
    wrapperChecks r ws

/-- `replace_check` -/
def replaceCheck (r : CheckRun) : Except CheckFailure Unit :=
  match r.files "go.mod".toList with
  | none => .error .goMod
  | some text => Check.refuseIf (cmdReplace localReplaceAllow text ≠ 0) .replace

/-- `check` -/
def check (r : CheckRun) : Except CheckFailure Unit := do
  Check.refuseIf (envGuard r.env ≠ []) (.environment (envGuard r.env))
  let ws ← orFail .wrappers (loadWrappers r.checkout)
  Check.refuseIf (r.modVerify = false) .modVerify
  let goList ← orFail (fun _ => .goList) (r.goList.elim (.error ()) .ok)
  checkGraph r lockPath (currentGraph goList)
  wrapperChecks r ws
  replaceCheck r
  Check.refuseIf (r.tools = false) .tools

/-- No advisory of a version reports a malicious package. -/
def Clean (first : Query → Page) (next : Query → Text → Page) (m : ModuleLine) : Prop :=
  ∀ j p, chain first next ⟨m.effectivePath, m.effectiveVersion⟩ j = some p →
    ∀ i ∈ p.ids, ¬"MAL-".toList <+: i

section Stages

variable {r : CheckRun} {first : Query → Page} {next : Query → Text → Page}

end Stages

end K3smApis.Deps
