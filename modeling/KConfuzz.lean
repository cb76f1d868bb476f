import KConfuzz.Bisect.FixedTheorems
import KConfuzz.Compiler.LayoutTheorems
import KConfuzz.Corpus.FocusTheorems
import KConfuzz.Cover.CanonicalizerTheorems
import KConfuzz.Db.DatabaseTheorems
import KConfuzz.Dispatcher.PoolTheorems
import KConfuzz.Executor.BitfieldTheorems
import KConfuzz.Executor.ChecksumTheorems
import KConfuzz.Executor.ExitTheorems
import KConfuzz.Executor.RestoreTheorems
import KConfuzz.Executor.OrderTheorems
import KConfuzz.Fuzzer.DeflakeTheorems
import KConfuzz.Fuzzer.ExecutedTheorems
import KConfuzz.Fuzzer.PlainQueue
import KConfuzz.Fuzzer.PrepareTheorems
import KConfuzz.Fuzzer.TriageTheorems
import KConfuzz.Hub.RestartTheorems
import KConfuzz.Kconfig.MinimizeTheorems
import KConfuzz.Linux.SafetyTheorems
import KConfuzz.Manager.CorpusTheorems
import KConfuzz.Manager.ReproLoopTheorems
import KConfuzz.Metadata.StoreTheorems
import KConfuzz.Planner.ContractTheorems
import KConfuzz.Planner.SignatureTheorems
import KConfuzz.Prog.ArrayTheorems
import KConfuzz.Prog.DataLiteral
import KConfuzz.Prog.FallbackSignal
import KConfuzz.Prog.KFuzzTestTheorems
import KConfuzz.Prog.OneMinimalTheorems
import KConfuzz.Prog.RaceTheorems
import KConfuzz.Prog.ReplaceTheorems
import KConfuzz.Prog.VmaAlloc
import KConfuzz.Signal.CoverTheorems
