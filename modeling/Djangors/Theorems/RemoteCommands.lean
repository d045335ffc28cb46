import Djangors.Deploy.Ssh
import Djangors.Lib.Shell

/-! # What remote commands mean

Every quoted value is the word it was meant to be. Three of them stand where a program looks for options, and are read as
options when they begin like one. -/

namespace Djangors.Deploy
open Shell

local instance lawfulWords : LawfulBEq (List Char) := inferInstance

/-! ### What is meant -/

/-- The options that take the next argument. -/
def takesValue (program option : List Char) : Bool :=
  if program = "git".toList then option ∈ ["-C", "--branch"].map String.toList
  else if program = "docker".toList then option ∈ ["-f", "-t", "--name", "--restart", "-p", "-e"].map String.toList
  else false

inductive Part where
  | command (program : List Char) (arguments : List (List Char × Role))
  | operator (text : List Char)
  /-- Nothing of a command's output is kept. -/
  | silence

namespace Part

def tokens : Part → List Token
  | command program arguments => .word program :: arguments.map fun a => .word a.1
  | operator text => [.operator text]
  | silence => [.operator ['>'], .word "/dev/null".toList, .ioNumber ['2'], .operator ['>', '&'], .word ['1']]

/-- Each argument has the role it is meant to have. -/
def AsMeant : Part → Prop
  | command program arguments => roles (takesValue program) (arguments.map (·.1)) = arguments
  | operator _ | silence => True

end Part

def option (text : String) : List Char × Role := (text.toList, .option)

def operand (text : String) : List Char × Role := (text.toList, .operand)

def command (program : String) (arguments : List (List Char × Role)) : Part := .command program.toList arguments

def syncParts (remoteDir branch repo : List Char) : List Part :=
  [command "mkdir" [option "-p", (remoteBaseDir, .operand)], .operator ['&', '&'], .operator ['('],
    command "git" [option "-C", (remoteDir, .value), operand "rev-parse", option "--git-dir"], .silence, .operator ['&', '&'],
    command "git" [option "-C", (remoteDir, .value), operand "fetch", operand "origin", (branch, .operand)],
    .operator ['&', '&'],
    command "git" [option "-C", (remoteDir, .value), operand "reset", option "--hard", ("origin/".toList ++ branch, .operand)],
    .operator ['|', '|'],
    command "git" [operand "clone", option "--branch", (branch, .value), (repo, .operand), (remoteDir, .operand)],
    .operator [')']]

def buildParts (remoteDir : List Char) (info : DeploymentInfo) (spec : DeploySpec) : List Part :=
  [command "docker" [operand "build", option "-f", (remoteDir ++ '/' :: spec.dockerfilePath, .value), option "-t",
    (imageTag info, .value), (remoteDir ++ '/' :: spec.dockerContext, .operand)]]

def envArguments (envVars : List (List Char × List Char)) : List (List Char × Role) :=
  envVars.flatMap fun var => [option "-e", (var.1 ++ '=' :: var.2, .value)]

def runParts (info : DeploymentInfo) (spec : DeploySpec) : List Part :=
  [command "docker" [operand "stop", (info.serviceId, .operand)], .silence, .operator [';'],
    command "docker" [operand "rm", (info.serviceId, .operand)], .silence, .operator [';'],
    command "docker" ([operand "run", option "-d", option "--name", (info.serviceId, .value), option "--restart",
      ("unless-stopped".toList, .value), option "--add-host=host.docker.internal:host-gateway", option "-p",
      ("8000:8000".toList, .value)] ++ envArguments spec.envVars ++ [(imageTag info, .operand)])]

/-- What the commands of a deployment are meant to be. -/
def intended (info : DeploymentInfo) (spec : DeploySpec) : List (List Part) :=
  let dir := remoteBaseDir ++ '/' :: info.serviceId
  [syncParts dir spec.branch (spec.repoUrl.getD []), buildParts dir info spec, runParts info spec]

/-! ### Tokens -/

section Tokens
variable {s : State} {ts : List Token} {text rest : List Char} {bare : Bool}

theorem run_quoted (text value : List Char) :
    run (.quoted text) (value.flatMap (fun c => if c = '\'' then ['\'', '\\', '\'', '\''] else [c]) ++ ['\'']) =
      some ([], .word (text ++ value) false) := by
  induction value generalizing text with
  | nil => rw [List.flatMap_nil, List.nil_append, run_cons (step_quoted_end text), run, List.append_nil]
  | cons c value ih =>
    rw [List.flatMap_cons, List.append_assoc]
    by_cases hc : c = '\''
    · subst hc
      rw [if_pos rfl]
      simp only [List.cons_append, List.nil_append]
      rw [run_cons (step_quoted_end text), run_cons (step_word_backslash text false), run_cons (step_escaped (by decide) text),
        run_cons (step_word_quote _ false), ih, List.append_assoc, List.singleton_append]
    · rw [if_neg hc, List.singleton_append, run_cons (step_quoted hc text), ih, List.append_assoc, List.singleton_append]

/-- A quoted value is a word, or the end of one. -/
theorem run_shellQuote (value : List Char) : run .gap (shellQuote value) = some ([], .word value false) := by
  have hbegin : step .gap '\'' = some ([], .quoted []) := by decide
  rw [shellQuote, List.cons_append, run_cons hbegin, run_quoted, List.nil_append]

theorem run_shellQuote_behind (text value : List Char) (bare : Bool) :
    run (.word text bare) (shellQuote value) = some ([], .word (text ++ value) false) := by
  rw [shellQuote, List.cons_append, run_cons (step_word_quote text bare), run_quoted]

/-- A quoted value that a literal with a blank comes before and behind. -/
theorem run_value {a b : List Char} {us : List Token} (value : List Char) (ha : run .gap a = some (ts, .gap))
    (hhead : b.head? = some ' ') (hb : run .gap b = some (us, s)) :
    run .gap (a ++ shellQuote value ++ b) = some (ts ++ .word value :: us, s) := by
  have hvalue := run_append ha (run_shellQuote value)
  have hall := run_append hvalue (run_word_blank hhead hb value)
  rwa [List.append_nil] at hall

theorem tokens_syncCmd (remoteDir branch repo : List Char) :
    Shell.tokens (syncCmd remoteDir branch repo) = some ((syncParts remoteDir branch repo).flatMap Part.tokens) := by
  have hmkdir : run .gap "mkdir -p ".toList = some ([.word "mkdir".toList, .word "-p".toList], .gap) := rfl
  have hopen : run .gap " && (git -C ".toList = some
      ([.operator ['&', '&'], .operator ['('], .word "git".toList, .word "-C".toList], .gap) := rfl
  have hparse : run .gap " rev-parse --git-dir > /dev/null 2>&1 && git -C ".toList = some
      ([.word "rev-parse".toList, .word "--git-dir".toList, .operator ['>'], .word "/dev/null".toList, .ioNumber ['2'],
        .operator ['>', '&'], .word ['1'], .operator ['&', '&'], .word "git".toList, .word "-C".toList], .gap) :=
    rfl
  have hfetch : run .gap " fetch origin ".toList = some ([.word "fetch".toList, .word "origin".toList], .gap) :=
    rfl
  have hgit : run .gap " && git -C ".toList = some
      ([.operator ['&', '&'], .word "git".toList, .word "-C".toList], .gap) := rfl
  have hreset : run .gap " reset --hard origin/".toList = some
      ([.word "reset".toList, .word "--hard".toList], .word "origin/".toList true) := rfl
  have hclone : run .gap " || git clone --branch ".toList = some
      ([.operator ['|', '|'], .word "git".toList, .word "clone".toList, .word "--branch".toList], .gap) :=
    rfl
  have hblank : run .gap " ".toList = some ([], .gap) := rfl
  have hmade := run_value remoteBaseDir hmkdir (rfl) hopen
  have hparsed := run_value remoteDir hmade (rfl) hparse
  have hfetched := run_value remoteDir hparsed (rfl) hfetch
  have hand := run_value branch hfetched (rfl) hgit
  have hresetting := run_value remoteDir hand (rfl) hreset
  have horigin := run_append hresetting (run_shellQuote_behind "origin/".toList branch true)
  have hcloning := run_append horigin (run_word_blank (rfl) hclone _)
  have hbranch := run_value branch hcloning (rfl) hblank
  have hrepo := run_value repo hbranch (rfl) hblank
  have hdir := run_append hrepo (run_shellQuote remoteDir)
  have hparen : run (.word remoteDir false) ")".toList = some ([.word remoteDir], .operator [')']) := run_word_paren remoteDir
  exact (tokens_of_run (run_append hdir hparen) rfl).trans rfl

theorem tokens_buildCmd (remoteDir : List Char) (info : DeploymentInfo) (spec : DeploySpec) :
    Shell.tokens (buildCmd remoteDir info spec) = some ((buildParts remoteDir info spec).flatMap Part.tokens) := by
  have hbuild : run .gap "docker build -f ".toList = some
      ([.word "docker".toList, .word "build".toList, .word "-f".toList], .gap) := rfl
  have htag : run .gap " -t ".toList = some ([.word "-t".toList], .gap) := rfl
  have hblank : run .gap " ".toList = some ([], .gap) := rfl
  have hfile := run_value (remoteDir ++ '/' :: spec.dockerfilePath) hbuild (rfl) htag
  have himage := run_value (imageTag info) hfile (rfl) hblank
  have hcontext := run_append himage (run_shellQuote (remoteDir ++ '/' :: spec.dockerContext))
  exact (tokens_of_run hcontext rfl).trans rfl

theorem run_envFlag (var : List Char × List Char) :
    run .gap (envFlag var) = some ([.word "-e".toList], .word (var.1 ++ '=' :: var.2) false) := by
  have hflag : run .gap "-e ".toList = some ([.word "-e".toList], .gap) := rfl
  have hequals : run (.word var.1 false) "=".toList = some ([], .word (var.1 ++ ['=']) false) :=
    run_cons (step_word_plain (by decide) (by decide) (by decide) (by decide) var.1 false) []
  have hkey := run_append (run_append hflag (run_shellQuote var.1)) hequals
  have hvalue := run_append hkey (run_shellQuote_behind (var.1 ++ ['=']) var.2 false)
  have htext : var.1 ++ ['='] ++ var.2 = var.1 ++ '=' :: var.2 := by rw [List.append_assoc, List.singleton_append]
  rw [htext] at hvalue
  exact hvalue

/-- The variables are options with a value each. -/
theorem run_envFlags (envVars : List (List Char × List Char)) {b : List Char} {us : List Token} (hhead : b.head? = some ' ')
    (hb : run .gap b = some (us, s)) : run .gap (" ".toList.intercalate (envVars.map envFlag) ++ b) =
      some ((envArguments envVars).map (fun a => .word a.1) ++ us, s) := by
  have hblank : " ".toList = [' '] := by decide
  induction envVars with
  | nil => exact hb
  | cons var envVars ih =>
    have hfirst := run_envFlag var
    cases envVars with
    | nil =>
      rw [List.map_cons, List.map_nil, List.intercalate_singleton]
      exact (run_append hfirst (run_word_blank hhead hb _)).trans rfl
    | cons next envVars =>
      have hgap : step .gap ' ' = some ([], .gap) := by decide
      rw [List.map_cons, List.map_cons, List.intercalate_cons_cons, List.append_assoc, List.append_assoc]
      have hrest : run .gap (" ".toList ++ (" ".toList.intercalate (envFlag next :: envVars.map envFlag) ++ b)) =
          some ((envArguments (next :: envVars)).map (fun a => .word a.1) ++ us, s) := by
        rw [hblank, List.singleton_append, run_cons hgap, ← hblank]
        exact ih
      refine (run_append hfirst (run_word_blank ?_ hrest _)).trans rfl
      rw [hblank]
      rfl

theorem tokens_runCmd (info : DeploymentInfo) (spec : DeploySpec) :
    Shell.tokens (runCmd info spec) = some ((runParts info spec).flatMap Part.tokens) := by
  have hstop : run .gap "docker stop ".toList = some ([.word "docker".toList, .word "stop".toList], .gap) := rfl
  have hrm : run .gap " > /dev/null 2>&1; docker rm ".toList = some
      (Part.silence.tokens ++ [.operator [';'], .word "docker".toList, .word "rm".toList], .gap) := rfl
  have hrun : run .gap " > /dev/null 2>&1; docker run -d --name ".toList = some
      (Part.silence.tokens ++ [.operator [';'], .word "docker".toList, .word "run".toList, .word "-d".toList,
        .word "--name".toList], .gap) := rfl
  have hports : run .gap
      " --restart unless-stopped --add-host=host.docker.internal:host-gateway -p 8000:8000 ".toList = some
      ([.word "--restart".toList, .word "unless-stopped".toList,
        .word "--add-host=host.docker.internal:host-gateway".toList, .word "-p".toList, .word "8000:8000".toList], .gap) := by
    decide +kernel
  have hblank : run .gap " ".toList = some ([], .gap) := rfl
  have hstopped := run_value info.serviceId hstop (rfl) hrm
  have hremoved := run_value info.serviceId hstopped (rfl) hrun
  have hnamed := run_value info.serviceId hremoved (rfl) hports
  have himage := run_append hblank (run_shellQuote (imageTag info))
  have hhead : (" ".toList ++ shellQuote (imageTag info)).head? = some ' ' := by
    have htext : " ".toList = [' '] := by decide
    rw [htext]
    rfl
  have henv := run_envFlags spec.envVars hhead himage
  have hall := tokens_of_run (run_append hnamed henv) rfl
  have harguments : (envArguments spec.envVars).map (fun a => Token.word a.1) ++ ([] ++ []) ++ [.word (imageTag info)] =
      (envArguments spec.envVars ++ [(imageTag info, Role.operand)]).map (fun a => .word a.1) ++ [] := by
    rw [List.append_nil, List.append_nil, List.append_nil, List.map_append, List.map_singleton]
  rw [List.append_assoc _ _ [Token.word (imageTag info)], harguments] at hall
  exact hall.trans rfl

end Tokens

/-! ### Roles -/

section Roles
variable {dir branch repo : List Char} {info : DeploymentInfo} {spec : DeploySpec}

/-- A word with a text before it begins as that text does. -/
theorem not_isOption {c : Char} {text : List Char} (h : text.head? = some c) (hc : c ≠ '-') (rest : List Char) :
    ¬IsOption (text ++ rest) := by
  obtain ⟨tail, rfl⟩ := List.head?_eq_some_iff.mp h
  rintro ⟨hhead, -⟩
  rw [List.cons_append, List.head?_cons, Option.some_inj] at hhead
  exact hc hhead

theorem not_isOption_dir (name : List Char) : ¬IsOption (remoteBaseDir ++ '/' :: name) :=
  not_isOption (by decide : remoteBaseDir.head? = some '/') (by decide) _

theorem not_isOption_origin (branch : List Char) : ¬IsOption ("origin/".toList ++ branch) :=
  not_isOption (by decide : "origin/".toList.head? = some 'o') (by decide) _

theorem not_isOption_image (info : DeploymentInfo) : ¬IsOption (imageTag info) :=
  not_isOption (by decide : "djangors-".toList.head? = some 'd') (by decide) _

theorem asMeant_fetch : (command "git" [option "-C", (dir, .value), operand "fetch", operand "origin",
    (branch, .operand)]).AsMeant ↔ ¬IsOption branch := by
  change roles (takesValue "git".toList) ["-C".toList, dir, "fetch".toList, "origin".toList, branch] =
    [("-C".toList, .option), (dir, .value), ("fetch".toList, .operand), ("origin".toList, .operand), (branch, .operand)] ↔ _
  rw [roles_option_iff (by decide) (by decide) (by decide), roles_operand_iff, roles_operand_iff,
    roles_operand_iff, and_iff_right (by decide), and_iff_right (by decide), roles]
  exact and_iff_left rfl

theorem asMeant_reset : (command "git" [option "-C", (dir, .value), operand "reset", option "--hard",
    ("origin/".toList ++ branch, .operand)]).AsMeant := by
  change roles (takesValue "git".toList) ["-C".toList, dir, "reset".toList, "--hard".toList, "origin/".toList ++ branch] =
    [("-C".toList, .option), (dir, .value), ("reset".toList, .operand), ("--hard".toList, .option),
      ("origin/".toList ++ branch, .operand)]
  rw [roles_option_iff (by decide) (by decide) (by decide), roles_operand_iff,
    roles_flag_iff (by decide) (by decide) (by decide), roles_operand_iff, roles]
  exact ⟨by decide, not_isOption_origin branch, rfl⟩

theorem asMeant_parse : (command "git" [option "-C", (dir, .value), operand "rev-parse", option "--git-dir"]).AsMeant := by
  change roles (takesValue "git".toList) ["-C".toList, dir, "rev-parse".toList, "--git-dir".toList] =
    [("-C".toList, .option), (dir, .value), ("rev-parse".toList, .operand), ("--git-dir".toList, .option)]
  rw [roles_option_iff (by decide) (by decide) (by decide), roles_operand_iff,
    roles_flag_iff (by decide) (by decide) (by decide), roles]
  exact ⟨by decide, rfl⟩

theorem asMeant_clone (hdir : ¬IsOption dir) : (command "git" [operand "clone", option "--branch", (branch, .value),
    (repo, .operand), (dir, .operand)]).AsMeant ↔ ¬IsOption repo := by
  change roles (takesValue "git".toList) ["clone".toList, "--branch".toList, branch, repo, dir] =
    [("clone".toList, .operand), ("--branch".toList, .option), (branch, .value), (repo, .operand), (dir, .operand)] ↔ _
  rw [roles_operand_iff, roles_option_iff (by decide) (by decide) (by decide), roles_operand_iff,
    roles_operand_iff, and_iff_right (by decide), and_iff_right hdir, roles]
  exact and_iff_left rfl

theorem asMeant_syncParts (branch repo : List Char) (hdir : ¬IsOption dir) : (∀ part ∈ syncParts dir branch repo, part.AsMeant) ↔
    ¬IsOption branch ∧ ¬IsOption repo := by
  have hmkdir : (command "mkdir" [option "-p", (remoteBaseDir, .operand)]).AsMeant := by
    change roles (takesValue "mkdir".toList) ["-p".toList, remoteBaseDir] = [("-p".toList, .option), (remoteBaseDir, .operand)]
    decide
  rw [syncParts]
  simp only [List.forall_mem_cons]
  constructor
  · rintro ⟨-, -, -, -, -, -, hfetch, -, -, -, hclone, -⟩
    exact ⟨asMeant_fetch.mp hfetch, (asMeant_clone hdir).mp hclone⟩
  · rintro ⟨hbranch, hrepo⟩
    exact ⟨hmkdir, trivial, trivial, asMeant_parse, trivial, trivial, asMeant_fetch.mpr hbranch, trivial, asMeant_reset,
      trivial, (asMeant_clone hdir).mpr hrepo, trivial, fun _ h => absurd h List.not_mem_nil⟩

theorem asMeant_buildParts (hdir : ∀ name : List Char, ¬IsOption (dir ++ '/' :: name)) :
    ∀ part ∈ buildParts dir info spec, part.AsMeant := by
  intro part hpart
  rw [List.mem_singleton.mp hpart]
  change roles (takesValue "docker".toList) ["build".toList, "-f".toList, dir ++ '/' :: spec.dockerfilePath, "-t".toList,
      imageTag info, dir ++ '/' :: spec.dockerContext] =
    [("build".toList, .operand), ("-f".toList, .option), (dir ++ '/' :: spec.dockerfilePath, .value), ("-t".toList, .option),
      (imageTag info, .value), (dir ++ '/' :: spec.dockerContext, .operand)]
  rw [roles_operand_iff, roles_option_iff (by decide) (by decide) (by decide),
    roles_option_iff (by decide) (by decide) (by decide), roles_operand_iff, roles]
  exact ⟨by decide, hdir _, rfl⟩

theorem asMeant_container (info : DeploymentInfo) (verb : String) (hverb : ¬IsOption verb.toList) :
    (command "docker" [operand verb, (info.serviceId, .operand)]).AsMeant ↔ ¬IsOption info.serviceId := by
  change roles (takesValue "docker".toList) [verb.toList, info.serviceId] =
    [(verb.toList, .operand), (info.serviceId, .operand)] ↔ _
  rw [roles_operand_iff, roles_operand_iff, and_iff_right hverb, roles]
  exact and_iff_left rfl

theorem roles_envArguments (envVars : List (List Char × List Char)) (rest : List (List Char × Role)) :
    roles (takesValue "docker".toList) ((envArguments envVars ++ rest).map (·.1)) = envArguments envVars ++ rest ↔
      roles (takesValue "docker".toList) (rest.map (·.1)) = rest := by
  induction envVars with
  | nil => rfl
  | cons var envVars ih =>
    rw [← ih]
    exact roles_option_iff (by decide) (by decide) (by decide)

theorem asMeant_run : (command "docker" ([operand "run", option "-d", option "--name", (info.serviceId, .value),
    option "--restart", ("unless-stopped".toList, .value), option "--add-host=host.docker.internal:host-gateway", option "-p",
    ("8000:8000".toList, .value)] ++ envArguments spec.envVars ++ [(imageTag info, .operand)])).AsMeant := by
  have hrest := (roles_envArguments spec.envVars [(imageTag info, .operand)]).mpr
    (roles_operand_iff.mpr ⟨not_isOption_image info, rfl⟩)
  refine roles_operand_iff.mpr ⟨by decide, ?_⟩
  refine (roles_flag_iff (by decide) (by decide) (by decide)).mpr ?_
  refine (roles_option_iff (by decide) (by decide) (by decide)).mpr ?_
  refine (roles_option_iff (by decide) (by decide) (by decide)).mpr ?_
  refine (roles_flag_iff (by decide) (by decide) (by decide)).mpr ?_
  exact (roles_option_iff (by decide) (by decide) (by decide)).mpr hrest

theorem asMeant_runParts : (∀ part ∈ runParts info spec, part.AsMeant) ↔ ¬IsOption info.serviceId := by
  have hstop := asMeant_container info "stop" (by decide)
  have hrm := asMeant_container info "rm" (by decide)
  rw [runParts]
  simp only [List.forall_mem_cons]
  constructor
  · rintro ⟨h, -⟩
    exact hstop.mp h
  · intro h
    exact ⟨hstop.mpr h, trivial, trivial, hrm.mpr h, trivial, trivial, asMeant_run, fun _ h => absurd h List.not_mem_nil⟩

end Roles

/-! ### Deployments -/

/-- The commands that are sent, as far as they succeed. -/
theorem execAll_sent (remote : Remote) (sent cmds : List (List Char)) :
    ∃ n, (execAll remote sent cmds).1 = sent ++ cmds.take n := by
  induction cmds generalizing sent with
  | nil => exact ⟨0, (List.append_nil _).symm⟩
  | cons cmd cmds ih =>
    rw [execAll]
    split
    · exact ⟨1, rfl⟩
    · split
      · exact ⟨1, rfl⟩
      · obtain ⟨n, hn⟩ := ih (sent ++ [cmd])
        exact ⟨n + 1, by rw [hn, List.take_succ_cons, List.append_assoc, List.singleton_append]⟩

theorem execAll_all (sent cmds : List (List Char)) : (execAll (fun _ => .ok ([], 0)) sent cmds).1 = sent ++ cmds := by
  induction cmds generalizing sent with
  | nil => exact (List.append_nil _).symm
  | cons cmd cmds ih =>
    rw [execAll]
    dsimp only
    rw [if_neg (by decide), ih, List.append_assoc, List.singleton_append]

section Deployments
variable {info : DeploymentInfo} {spec : DeploySpec} {repo : List Char}

theorem deploy_eq (hrepo : spec.repoUrl = some repo) (hslug : isSlug info.serviceId = true) (remote : Remote) :
    deploy remote info spec = execAll remote [] [syncCmd (remoteBaseDir ++ '/' :: info.serviceId) spec.branch repo,
      buildCmd (remoteBaseDir ++ '/' :: info.serviceId) info spec, runCmd info spec] := by
  have hdir : remoteDir info.serviceId = .ok (remoteBaseDir ++ '/' :: info.serviceId) := by
    rw [remoteDir, validateSlug, if_pos hslug]
    rfl
  rw [deploy, hrepo]
  dsimp only
  rw [hdir]

theorem deploy_none (h : ¬(spec.repoUrl.isSome ∧ isSlug info.serviceId = true)) (remote : Remote) :
    (deploy remote info spec).1 = [] := by
  rw [deploy]
  split
  · rfl
  · rename_i repo hrepo
    have hslug : isSlug info.serviceId ≠ true := fun hslug => h ⟨by rw [hrepo]; rfl, hslug⟩
    have hdir : ∃ e, remoteDir info.serviceId = .error e := by
      rw [remoteDir, validateSlug, if_neg hslug]
      exact ⟨_, rfl⟩
    obtain ⟨e, he⟩ := hdir
    rw [he]

theorem forall₂_take {α β : Type} {r : α → β → Prop} {as : List α} {bs : List β} (h : List.Forall₂ r as bs) (n : Nat) :
    List.Forall₂ r (as.take n) (bs.take (as.take n).length) := by
  induction h generalizing n with
  | nil => simp
  | cons hhead _ ih =>
    cases n with
    | zero => exact .nil
    | succ n => exact .cons hhead (ih n)

end Deployments

/-- A command is read as it is meant: as its parts, and the arguments of each in their roles. -/
structure Meant (cmd : List Char) (parts : List Part) : Prop where
  tokens : Shell.tokens cmd = some (parts.flatMap Part.tokens)
  asMeant : ∀ part ∈ parts, part.AsMeant

section Sent
variable {info : DeploymentInfo} {spec : DeploySpec} {repo : List Char}

def commands (info : DeploymentInfo) (spec : DeploySpec) (repo : List Char) : List (List Char) :=
  [syncCmd (remoteBaseDir ++ '/' :: info.serviceId) spec.branch repo,
    buildCmd (remoteBaseDir ++ '/' :: info.serviceId) info spec, runCmd info spec]

theorem tokens_commands (hrepo : spec.repoUrl = some repo) :
    List.Forall₂ (fun cmd parts => Shell.tokens cmd = some (parts.flatMap Part.tokens)) (commands info spec repo)
      (intended info spec) := by
  rw [commands, intended, hrepo, Option.getD_some]
  exact .cons (tokens_syncCmd _ _ _) (.cons (tokens_buildCmd _ _ _) (.cons (tokens_runCmd _ _) .nil))

theorem meant_commands (hrepo : spec.repoUrl = some repo) : List.Forall₂ Meant (commands info spec repo) (intended info spec) ↔
    ¬IsOption spec.branch ∧ ¬IsOption repo ∧ ¬IsOption info.serviceId := by
  have hbelow : ∀ name : List Char, ¬IsOption (remoteBaseDir ++ '/' :: info.serviceId ++ '/' :: name) := by
    intro name
    rw [List.append_assoc, List.cons_append]
    exact not_isOption_dir _
  have hsync := asMeant_syncParts spec.branch repo (not_isOption_dir info.serviceId)
  have htokens : List.Forall₂ _ (commands info spec repo) (intended info spec) := tokens_commands hrepo
  rw [commands, intended, hrepo, Option.getD_some] at htokens ⊢
  rw [List.forall₂_cons, List.forall₂_cons, List.forall₂_cons] at htokens ⊢
  obtain ⟨hfirst, hsecond, hthird, -⟩ := htokens
  constructor
  · rintro ⟨hsynced, -, hran, -⟩
    obtain ⟨hbranch, hrepo⟩ := hsync.mp hsynced.asMeant
    exact ⟨hbranch, hrepo, asMeant_runParts.mp hran.asMeant⟩
  · rintro ⟨hbranch, hrepo, hid⟩
    exact ⟨⟨hfirst, hsync.mpr ⟨hbranch, hrepo⟩⟩, ⟨hsecond, asMeant_buildParts hbelow⟩,
      ⟨hthird, asMeant_runParts.mpr hid⟩, .nil⟩

/-- What is sent is as much of the commands as succeeds, and all of them where all succeed. -/
theorem deploy_sent (hrepo : spec.repoUrl = some repo) (hslug : isSlug info.serviceId = true) :
    (∀ remote, ∃ n, (deploy remote info spec).1 = (commands info spec repo).take n) ∧
      (deploy (fun _ => .ok ([], 0)) info spec).1 = commands info spec repo := by
  have hall := execAll_all [] (commands info spec repo)
  refine ⟨fun remote => ?_, ?_⟩
  · obtain ⟨n, hn⟩ := execAll_sent remote [] (commands info spec repo)
    exact ⟨n, by rw [deploy_eq hrepo hslug]; exact hn⟩
  · rw [deploy_eq hrepo hslug]
    exact hall

end Sent

/-- Every command has the words that are meant; they have the roles that are meant where no value that stands among options
begins like one. -/
theorem remote_commands (info : DeploymentInfo) (spec : DeploySpec) :
    (∀ remote, List.Forall₂ (fun cmd parts => Shell.tokens cmd = some (parts.flatMap Part.tokens)) (deploy remote info spec).1
      ((intended info spec).take (deploy remote info spec).1.length)) ∧
    ((∀ remote, List.Forall₂ Meant (deploy remote info spec).1
        ((intended info spec).take (deploy remote info spec).1.length)) ↔
      ∀ repo, spec.repoUrl = some repo → isSlug info.serviceId = true →
        ¬IsOption spec.branch ∧ ¬IsOption repo ∧ ¬IsOption info.serviceId) := by
  by_cases hsent : spec.repoUrl.isSome ∧ isSlug info.serviceId = true
  · obtain ⟨hsome, hslug⟩ := hsent
    obtain ⟨repo, hrepo⟩ := Option.isSome_iff_exists.mp hsome
    obtain ⟨hsent, hall⟩ := deploy_sent hrepo hslug
    refine ⟨fun remote => ?_, fun h repo' hrepo' _ => ?_, fun h remote => ?_⟩
    · obtain ⟨n, hn⟩ := hsent remote
      rw [hn]
      exact forall₂_take (tokens_commands hrepo) n
    · rw [hrepo, Option.some_inj] at hrepo'
      subst hrepo'
      have hmeant := h fun _ => .ok ([], 0)
      rw [hall] at hmeant
      exact (meant_commands hrepo).mp hmeant
    · obtain ⟨n, hn⟩ := hsent remote
      rw [hn]
      exact forall₂_take ((meant_commands hrepo).mpr (h repo hrepo hslug)) n
  · have hnone := deploy_none hsent
    refine ⟨fun remote => ?_, fun _ repo hrepo hslug => absurd ⟨by rw [hrepo]; rfl, hslug⟩ hsent, fun _ remote => ?_⟩
    · rw [hnone]
      exact .nil
    · rw [hnone]
      exact .nil

def shop : DeploymentInfo := ⟨"shop".toList⟩

/-- A deployment of the branch `-d`. -/
def dashed : DeploySpec := ⟨some "https://host/repo.git".toList, "-d".toList, "Dockerfile".toList, ".".toList, []⟩

/-- The branch is fetched as an option. -/
theorem branch_is_option : ¬∀ remote, List.Forall₂ Meant (deploy remote shop dashed).1
    ((intended shop dashed).take (deploy remote shop dashed).1.length) := by
  intro h
  have hslug : isSlug shop.serviceId = true := by decide
  have hrepo : dashed.repoUrl = some "https://host/repo.git".toList := rfl
  have hmeant := h fun _ => .ok ([], 0)
  rw [(deploy_sent hrepo hslug).2] at hmeant
  exact ((meant_commands hrepo).mp hmeant).1 (by decide)

end Djangors.Deploy
