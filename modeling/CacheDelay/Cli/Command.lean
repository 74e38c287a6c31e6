import CacheDelay.Cli.Arguments
import CacheDelay.Probe.Basic
import CacheDelay.Report.Config
import CacheDelay.Status.Device

/-!
# Commands

The commands of the program and their arguments: `probe` measures, `analyze` reports on traces, and
`dump` prints the records of one.
-/

namespace CacheDelay.Cli

open CacheDelay.Files CacheDelay.Report CacheDelay.Text CacheDelay.Topology

/-- The kinds of topologies that can be chosen. -/
inductive TopologyKind where
  | interleaved
  | linear
  | sysfs

/-- Arguments of `probe`. -/
structure ProbeArgs where
  output : Path
  statusDevice : Path
  kib : Nat
  cacheKib : Nat
  /-- Asked from the kernel when absent. -/
  periodMs? : Option Nat
  runtimeMs : Nat
  cpu? : Option Nat
  fifoPriority? : Option Int
  skipRootCheck : Bool

/-- Arguments of `analyze`. -/
structure AnalyzeArgs where
  traces : List Path
  topology : TopologyKind
  coresPerL2 : Nat
  chips : Nat
  coresPerChip : Nat
  sysfsRoot : Path
  /-- Detected when absent. -/
  mhz? : Option Binary64
  cycles : Bool
  hotReads : Nat
  limits : Limits
  extent? : Option Binary64
  csvDirectory? : Option Path
  json : Bool
  autocap : Bool
  readSaved : Bool

/-- A command with its arguments. -/
inductive Command where
  | probe (args : ProbeArgs)
  | analyze (args : AnalyzeArgs) (verbose : Bool)
  | dump (trace : Path)

/-! ## Grammars -/

/-- A flag. -/
def flag (long : String) (short? : Option Char) : OptionSpec := ⟨long, short?, .setFlag, none⟩

/-- An option. -/
def option (long : String) (sort : ValueSort) : OptionSpec := ⟨long, none, .setValue sort, none⟩

/-- An option with a short name and an environment variable. -/
def optionOr (long : String) (short? : Option Char) (source : String) (sort : ValueSort) :
    OptionSpec :=
  ⟨long, short?, .setValue sort, some source⟩

/-- A 32-bit word. -/
def word32 : ValueSort := .integer 0 maxWord32

/-- The flags that can stand anywhere. -/
def commonOptions : List OptionSpec :=
  [flag "verbose" (some 'v'), ⟨"help", some 'h', .showHelp, none⟩]

/-- The arguments of `probe`. -/
def probeGrammar : Grammar where
  options := [option "status-device" .path, option "wss" .natural, option "cache-size" .natural,
    option "period-ms" .natural, option "runtime-ms" .natural, option "cpu" .natural,
    option "fifo-priority" (.integer (-0x80000000) 0x7FFFFFFF), flag "mask-interrupts" none,
    flag "skip-root-check" none] ++ commonOptions
  positional? := some ⟨"output", false⟩
  conflicts := []

/-- The arguments of `analyze`. -/
def analyzeGrammar : Grammar where
  options := [option "topology" (.choice ["interleaved", "linear", "sysfs"]),
    optionOr "cores-per-l2" (some 'l') "CPMD_CORES_PER_L2" word32,
    optionOr "num-chips" (some 'p') "CPMD_NUM_CHIPS" word32,
    optionOr "cores-per-chip" none "CPMD_CORES_PER_CHIP" word32, option "sysfs-root" .path,
    optionOr "cpu-mhz" (some 'u') "CPMD_CPU_MHZ" .float, flag "cycles" none,
    option "hot-reads" .natural, option "limit-preempt" .natural, option "limit-l2" .natural,
    option "limit-onchip" .natural, option "limit-offchip" .natural, option "iqr" .float,
    option "csv-dir" .path, flag "json" none, flag "autocap" (some 'a'),
    flag "read-valid-data" (some 'r')] ++ commonOptions
  positional? := some ⟨"traces", true⟩
  conflicts := [("cycles", "cpu-mhz"), ("read-valid-data", "autocap")]

/-- The arguments of `dump`. -/
def dumpGrammar : Grammar where
  options := commonOptions
  positional? := some ⟨"trace", false⟩
  conflicts := []

/-- The arguments in front of a command. -/
def topGrammar : Grammar where
  options := commonOptions
  positional? := none
  conflicts := []

/-! ## Arguments -/

/-- The directory that describes the CPUs of the running system. -/
def systemCpus : Path := ⟨"/sys/devices/system/cpu"⟩

/-- The arguments of `probe`; values that are not given have those of a default measurement. -/
def ProbeArgs.ofMatches (m : Matches) : ProbeArgs :=
  let defaults : Probe.Config := {}
  { output := (m.path? "output").getD ⟨""⟩
    statusDevice := (m.path? "status-device").getD Status.defaultDevice
    kib := (m.natural? "wss").getD defaults.kib
    cacheKib := (m.natural? "cache-size").getD defaults.cacheKib
    periodMs? := m.natural? "period-ms"
    runtimeMs := (m.natural? "runtime-ms").getD defaults.runtimeMs
    cpu? := m.natural? "cpu"
    fifoPriority? := m.integer? "fifo-priority"
    skipRootCheck := m.has "skip-root-check" }

/-- The kind of topology of the given name. -/
def TopologyKind.ofName : Option String → TopologyKind
  | some "linear" => .linear
  | some "sysfs" => .sysfs
  | _ => .interleaved

/-- The arguments of `analyze`. -/
def AnalyzeArgs.ofMatches (m : Matches) : AnalyzeArgs :=
  let word name default := ((m.integer? name).map Int.toNat).getD default
  { traces := m.paths "traces"
    topology := .ofName (m.choice? "topology")
    coresPerL2 := word "cores-per-l2" 2
    chips := word "num-chips" 4
    coresPerChip := word "cores-per-chip" 6
    sysfsRoot := (m.path? "sysfs-root").getD systemCpus
    mhz? := m.float? "cpu-mhz"
    cycles := m.has "cycles"
    hotReads := (m.natural? "hot-reads").getD 2
    limits := ⟨m.natural? "limit-preempt", m.natural? "limit-l2", m.natural? "limit-onchip",
      m.natural? "limit-offchip"⟩
    extent? := m.float? "iqr"
    csvDirectory? := m.path? "csv-dir"
    json := m.has "json"
    autocap := m.has "autocap"
    readSaved := m.has "read-valid-data" }

/-- The names of the commands. -/
def commandNames : List String := ["probe", "analyze", "dump", "help"]

/-- The outcome of a request for help: on a command that there is, or on none. -/
def helpUsage : List String → Usage
  | [] => .displayHelp
  | [command] => if commandNames.contains command then .displayHelp else .invalidSubcommand
  | _ => .invalidSubcommand

/-- The command that `name` and its arguments denote. -/
def Command.ofName (environment : String → Option String) (verbose : Bool) (name : String)
    (arguments : List String) : Except Usage Command :=
  match name with
  | "probe" => do
    pure (.probe (.ofMatches (← probeGrammar.parse environment arguments)))
  | "analyze" => do
    let m ← analyzeGrammar.parse environment arguments
    pure (.analyze (.ofMatches m) (verbose || m.has "verbose"))
  | "dump" => do
    let m ← dumpGrammar.parse environment arguments
    pure (.dump ((m.path? "trace").getD ⟨""⟩))
  | _ => .error (helpUsage arguments)

/-- Reads arguments up to the name of a command, and then the arguments of that command. -/
def Command.parseFrom (environment : String → Option String) (s : State) :
    List String → Except Usage Command
  | [] => if s.found.isEmpty then .error .displayHelpOnMissing else .error .missingSubcommand
  | text :: rest => do
    if commandNames.contains text then
      if s.ended then throw .unknownArgument
      Command.ofName environment (s.found.has "verbose") text rest
    else if s.ended || !"-".toList.isPrefixOf text.toList || text == "-" then
      throw .invalidSubcommand
    else Command.parseFrom environment (← s.take topGrammar text) rest

/-- The command on a command line, given without the name of the program. -/
def Command.parse (environment : String → Option String) (arguments : List String) :
    Except Usage Command :=
  Command.parseFrom environment .start arguments

end CacheDelay.Cli
