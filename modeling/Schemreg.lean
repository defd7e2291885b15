import Schemreg.CacheInner.SingleFlight
import Schemreg.CacheInner.Liveness
import Schemreg.Cache.ClearBarrier
import Schemreg.Cache.SubjectBarrier
import Schemreg.Cache.Transparency
import Schemreg.Apicurio.Deletion
import Schemreg.Apicurio.LatestVersion
import Schemreg.CacheInner.Fifo
import Schemreg.Json.Dependencies
import Schemreg.Json.Closure
import Schemreg.Wire.Soundness
import Schemreg.Wire.Panics
import Schemreg.Wire.RoundTrip
import Schemreg.Decoder.Agreement
import Schemreg.Json.Supplied
import Schemreg.Json.Limit
import Schemreg.Avro.Closure
import Schemreg.Confluent.Retryability
import Schemreg.Apicurio.PathSegments
import Schemreg.Http.Cleartext
import Schemreg.Retries
import Schemreg.Avro.Dependencies
import Schemreg.Encoder.Keys
import Schemreg.RetryPolicy
import Schemreg.Glue.RoundTrip
import Schemreg.Glue.Registration
import Schemreg.Protobuf.DescriptorPath
import Schemreg.Apicurio.Identity
import Schemreg.Http.Attempts
import Schemreg.Http.Concurrency
import Schemreg.Apicurio.LookupQuery
import Schemreg.Apicurio.Routes
import Schemreg.Apicurio.VersionNumbers
import Schemreg.Apicurio.Compatibility
import Schemreg.Http.RetryAfterGrammar
import Schemreg.Avro.Pipeline
import Schemreg.Json.Decoder
import Schemreg.Protobuf.Pipeline
import Schemreg.Cache.Warm
import Schemreg.Confluent.Routes
import Schemreg.Confluent.Pipeline
import Schemreg.Glue.Races
import Schemreg.Glue.Cached
