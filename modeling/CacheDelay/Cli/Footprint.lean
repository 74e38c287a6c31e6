import CacheDelay.Cli.Run

/-!
# Footprints of commands

The paths that a command may read or write, known from its arguments alone, so that they can be
brought into a `Tree` before it runs.
-/

namespace CacheDelay.Cli

open CacheDelay.Files CacheDelay.Report CacheDelay.Topology

/-- The paths of a command. -/
structure Footprint where
  /-- Files, with the directories on the way to them. -/
  files : List Path
  /-- Directories that describe CPUs, with what is in them. -/
  hierarchies : List Path

/-- The files of one trace: the trace, the overheads saved beside it, and the tables that its rows
go to. -/
def traceFiles (csvDirectory? : Option Path) (trace : Path) : List Path :=
  let tables := match csvDirectory? with
    | none => []
    | some dir => Locality.all.map fun l => dir.child (tableName (Params.ofName trace) l)
  trace :: Locality.all.map (Overheads.savedPath trace) ++ tables

/-- The paths of a command. -/
def Command.footprint : Command → Footprint
  | .probe args => ⟨[args.statusDevice, args.output], []⟩
  | .analyze args _ =>
    { files := args.traces.flatMap (traceFiles args.csvDirectory?)
      hierarchies := match args.topology with
        | .sysfs => [args.sysfsRoot]
        | _ => [] }
  | .dump trace => ⟨[trace], []⟩

end CacheDelay.Cli
