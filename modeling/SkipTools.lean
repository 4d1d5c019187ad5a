import SkipTools.PosixPath
import SkipTools.RunNames
import SkipTools.FileSystem
import SkipTools.RunCommand
import SkipTools.ReportDiff
import SkipTools.Ledger
import SkipTools.Combinations
import SkipTools.TestWalk
import SkipTools.StreamTee
import SkipTools.TempFiles
import SkipTools.PerfLog
import SkipTools.MakeCallables
import SkipTools.ParseTypeRuns
import SkipTools.WorkerPool
import SkipTools.Verify
import SkipTools.Shell
import SkipTools.Callables
import SkipTools.Json
import SkipTools.ProjectFile
import SkipTools.ProjectRuns
