import DeepProve.Graph.Atomic
import DeepProve.Graph.Confluence
import DeepProve.Graph.Coloring
import DeepProve.PolyCommit.ClaimFlow
import DeepProve.PolyCommit.Completeness
import DeepProve.Lookup.Multiplicities
import DeepProve.Lookup.InputClaim
import DeepProve.Llm.Panics
import DeepProve.Llm.Channel
import DeepProve.Positional.MatrixClaim
import DeepProve.EinSum.WellShaped
import DeepProve.AttentionMask.Enforced
import DeepProve.Convolution.Binding
import DeepProve.Embeddings.Tokens
import DeepProve.Logits.Binding
import DeepProve.Reshape.Survives
import DeepProve.Iop.ChunkTotality
import DeepProve.Normalisation.Order
import DeepProve.Iop.PublicIo
import DeepProve.Store.DownloadLock
import DeepProve.Store.DiskStoreMap
import DeepProve.Store.S3Cache
import DeepProve.Store.Resumable
import DeepProve.Store.RemoteClientMap
import DeepProve.Quantization.ScalesKept
import DeepProve.LogUp.Circuit
import DeepProve.Lookup.PaddingCells
import DeepProve.Lookup.Zeroifier
import DeepProve.Split.NumChunks
import DeepProve.Split.Recombination
import DeepProve.EinSum.BroadcastBias
import DeepProve.Fountain.Recovery
import DeepProve.EinSum.Quantise
import DeepProve.EinSum.FromString
import DeepProve.Softmax.CacheRuns
import DeepProve.Resize.ReduceToShape
import DeepProve.Pooling.PolysCorrect
import DeepProve.Normalisation.Incremental
import DeepProve.Convolution.Delegation
import DeepProve.Lookup.TableColumns
import DeepProve.Quantization.AddQuantInfo
import DeepProve.Chunking.DefaultStrategy
import DeepProve.Store.TensorHandle
