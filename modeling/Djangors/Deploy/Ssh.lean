import Djangors.Lib.Text

/-! # Deployment over SSH

The commands that `SshProvider::deploy` runs on the remote host (`djangors-deploy/src/ssh.rs`). -/

namespace Djangors.Deploy

structure DeploySpec where
  repoUrl : Option (List Char)
  branch : List Char
  dockerfilePath : List Char
  dockerContext : List Char
  envVars : List (List Char × List Char)

structure DeploymentInfo where
  serviceId : List Char

inductive DeployError where
  | unexpectedResponse (text : List Char)
  | api (status : Nat) (message : List Char)

def remoteBaseDir : List Char := "/opt/djangors-deploys".toList

def isSlug (s : List Char) : Bool := s ≠ [] && s.all fun c => c.isAlphanum || c == '-' || c == '_'

def validateSlug (s : List Char) : Except DeployError Unit :=
  if isSlug s then .ok ()
  else .error (.unexpectedResponse
    ("invalid project name `".toList ++ s ++ "` - must be non-empty alphanumeric/-/_ only".toList))

def remoteDir (projectName : List Char) : Except DeployError (List Char) := do
  validateSlug projectName
  pure (remoteBaseDir ++ '/' :: projectName)

/-- `shell_quote` -/
def shellQuote (s : List Char) : List Char :=
  '\'' :: s.flatMap (fun c => if c = '\'' then ['\'', '\\', '\'', '\''] else [c]) ++ ['\'']

/-! ### Commands -/

def syncCmd (remoteDir branch repo : List Char) : List Char :=
  "mkdir -p ".toList ++ shellQuote remoteBaseDir ++
  " && (git -C ".toList ++ shellQuote remoteDir ++ " rev-parse --git-dir > /dev/null 2>&1 && git -C ".toList ++
  shellQuote remoteDir ++ " fetch origin ".toList ++ shellQuote branch ++ " && git -C ".toList ++ shellQuote remoteDir ++
  " reset --hard origin/".toList ++ shellQuote branch ++ " || git clone --branch ".toList ++ shellQuote branch ++
  " ".toList ++ shellQuote repo ++ " ".toList ++ shellQuote remoteDir ++ ")".toList

def imageTag (info : DeploymentInfo) : List Char := "djangors-".toList ++ info.serviceId

def buildCmd (remoteDir : List Char) (info : DeploymentInfo) (spec : DeploySpec) : List Char :=
  let dockerfile := remoteDir ++ '/' :: spec.dockerfilePath
  let context := remoteDir ++ '/' :: spec.dockerContext
  "docker build -f ".toList ++ shellQuote dockerfile ++ " -t ".toList ++ shellQuote (imageTag info) ++
  " ".toList ++ shellQuote context

def envFlag (var : List Char × List Char) : List Char :=
  "-e ".toList ++ shellQuote var.1 ++ "=".toList ++ shellQuote var.2

def runCmd (info : DeploymentInfo) (spec : DeploySpec) : List Char :=
  let containerName := shellQuote info.serviceId
  let envFlags := " ".toList.intercalate (spec.envVars.map envFlag)
  "docker stop ".toList ++ containerName ++ " > /dev/null 2>&1; docker rm ".toList ++ containerName ++
  " > /dev/null 2>&1; docker run -d --name ".toList ++ containerName ++
  " --restart unless-stopped --add-host=host.docker.internal:host-gateway -p 8000:8000 ".toList ++
  (envFlags ++ (" ".toList ++ shellQuote (imageTag info)))

/-! ### Running them -/

/-- What a command comes to after others: its error output and its exit code, or that `ssh` could not be run. -/
abbrev Remote := List (List Char) → Except (List Char) (List Char × Int)

/-- `exec_checked` of commands one after the other, with those that have been sent. -/
def execAll (remote : Remote) : List (List Char) → List (List Char) → List (List Char) × Except DeployError Unit
  | sent, [] => (sent, .ok ())
  | sent, cmd :: cmds =>
    match remote (sent ++ [cmd]) with
    | .error e => (sent ++ [cmd], .error (.unexpectedResponse ("failed to run ssh: ".toList ++ e)))
    | .ok (stderr, code) =>
      if code ≠ 0 then
        (sent ++ [cmd], .error (.api 0 ("remote command exited ".toList ++ (toString code).toList ++ ": ".toList ++ stderr)))
      else execAll remote (sent ++ [cmd]) cmds

/-- `SshProvider::deploy`, with the commands that are sent. -/
def deploy (remote : Remote) (info : DeploymentInfo) (spec : DeploySpec) : List (List Char) × Except DeployError Unit :=
  match spec.repoUrl with
  | none => ([], .error (.unexpectedResponse "SshProvider requires spec.repo_url".toList))
  | some repo =>
    match remoteDir info.serviceId with
    | .error e => ([], .error e)
    | .ok dir => execAll remote [] [syncCmd dir spec.branch repo, buildCmd dir info spec, runCmd info spec]

end Djangors.Deploy
