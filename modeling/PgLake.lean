import PgLake.Types.NumericPrecision
import PgLake.Types.StorageCasts
import PgLake.Types.MapExtract
import PgLake.Planner.Restrictions
import PgLake.Fdw.InheritanceScan
import PgLake.Fdw.ItemPointers
import PgLake.Iceberg.SnapshotSchema
import PgLake.Fdw.DeleteStrategies
import PgLake.Fdw.PartitionedWrites
import PgLake.Fdw.TruncatePartitions
import PgLake.Fdw.TextBounds
import PgLake.Fdw.TransformNames
import PgLake.Fdw.PartitionBy
import PgLake.Fdw.BucketConstants
import PgLake.Fdw.BucketPartitions
import PgLake.Transaction.RestCommit
import PgLake.Transaction.UrlEncode
import PgLake.Ddl.LastColumnId
import PgLake.Validation.Clamping
import PgLake.Cleanup.DeletionQueue
import PgLake.FileCache.Locks
import PgLake.FileCache.Contents
import PgLake.Server.BindValues
import PgLake.Server.SessionIo
import PgLake.Server.ThreadPool
import PgLake.BaseWorkers.DroppedExtensions
import PgLake.Iceberg.Compaction
import PgLake.Iceberg.RemovedEntries
import PgLake.Iceberg.ManifestAvro
import PgLake.Iceberg.PartitionFieldMap
import PgLake.Iceberg.ObjectStoreCatalog
import PgLake.Planner.InsertSelect
import PgLake.Planner.DateTrunc
import PgLake.Ddl.VacuumTables
import PgLake.Fdw.CompactionChoice
import PgLake.Iceberg.JsonSerde
import PgLake.Iceberg.OperationSummary
import PgLake.Fdw.PartitionPushdown
