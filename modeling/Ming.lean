import Ming.Analysis.GCCompleteness
import Ming.Analysis.GCRepresentation
import Ming.Analysis.GCIncrements
import Ming.Analysis.GCNewBorn
import Ming.Analysis.GCShutdown
import Ming.Analysis.GCPoolLookup
import Ming.Analysis.RBTreeRuns
import Ming.Analysis.GCRootRuns
import Ming.Analysis.ThreadSignal
import Ming.Analysis.ThreadStop
import Ming.Analysis.ValueInts
import Ming.Analysis.RBTreeKeys
import Ming.Analysis.RBTreeTermination
import Ming.Analysis.RBTreeTraversal
import Ming.Analysis.HashValueTraversal
import Ming.Analysis.GCSweepCells
import Ming.Analysis.GCPoolAlloc
import Ming.Analysis.NewBornRuns
import Ming.Analysis.GCBufRuns
import Ming.Analysis.GCMapCalls
import Ming.Analysis.GCPoolSize
import Ming.Analysis.ValueInts32
import Ming.Analysis.GCScanGray
import Ming.Analysis.RBTreeSaved
import Ming.Analysis.ListRuns
import Ming.Analysis.GCLinkRuns
import Ming.Analysis.ActorThreadRuns
import Ming.Analysis.GCPacing
import Ming.Analysis.RBTreeRelease
import Ming.Analysis.GCRootMarking
import Ming.Analysis.GCRootedCells
import Ming.Analysis.GCRootHeap
import Ming.Analysis.HashRehash
import Ming.Analysis.ThreadMemory
